import CheckRounds.Proofs.Pool.Since
/-!
The totals of a pool count the verdicts on the jobs that ended.

A verdict is counted in the batch of its thread when the job ends, and moves to the
totals with the report of the whole batch. So the totals and the records of all threads
together grow by just the verdicts that a history shows (`Run.totals`), and where
nothing is under way the totals do so by themselves.
-/

namespace CheckRounds

open Pool

variable {J E : Type} {n t : Nat} {h : List (Moment J E)} {m : Move J E}
  {es : List (Event J E)} {p q : Pool J} {o : Upshot J E}

/-! ## Tallies add up -/

namespace Tally

def add (a b : Tally) : Tally :=
  ⟨a.executed + b.executed, a.failed + b.failed, a.crashed + b.crashed⟩

/-- One of the three counts of a tally, or what can be computed from them by adding. -/
structure Counts (f : Tally → Nat) : Prop where
  zero : f {} = 0
  add : ∀ a b, f (a.add b) = f a + f b

theorem counts_executed : Counts Tally.executed := ⟨rfl, fun _ _ => rfl⟩

theorem counts_failed : Counts Tally.failed := ⟨rfl, fun _ _ => rfl⟩

theorem counts_crashed : Counts Tally.crashed := ⟨rfl, fun _ _ => rfl⟩

end Tally

/-- The tally of a batch of one job. -/
def Verdict.tally (v : Verdict) : Tally := ({} : Tally).count v

theorem Tally.count_eq_add (a : Tally) (v : Verdict) : a.count v = a.add v.tally := by
  cases v <;> simp [count, add, Verdict.tally]

theorem Tally.Counts.foldl {f : Tally → Nat} (hf : Counts f) (vs : List Verdict)
    (a : Tally) :
    f (vs.foldl count a) = f a + total (fun v => f v.tally) vs := by
  induction vs generalizing a with
  | nil => rfl
  | cons v vs ih =>
    rw [List.foldl_cons, ih, count_eq_add, hf.add, total]
    omega

def Ledger.totals (l : Ledger J) : Tally := ⟨l.jobsExecuted, l.jobsFailed, l.jobsCrashed⟩

theorem Ledger.totals_report (l : Ledger J) (a : Tally) :
    (l.report a).totals = l.totals.add a := rfl

/-- The tally of the verdicts on jobs that ended. -/
def tallyOf (f : Tally → Nat) (js : List (J × Fate)) : Nat :=
  total (fun j => f j.2.verdict.tally) js

theorem tallyOf_append (f : Tally → Nat) (js ks : List (J × Fate)) :
    tallyOf f (js ++ ks) = tallyOf f js + tallyOf f ks := total_append _ _ _

theorem Execution.counts_record {f : Tally → Nat} (hf : Tally.Counts f)
    {x y : Execution J} {d : Deed E} {e : JobEvent J E} (hx : x.step d = some (y, e)) :
    f y.record = f x.record + tallyOf f e.endedJobs := by
  rw [x.record_step hx, hf.foldl, total_map]
  rfl

/-! ## The record of a thread -/

namespace Thread

/-- The tally of the jobs of the thread that ended and are not reported. -/
def record (th : Thread J) : Tally :=
  match th.duty with
  | .looping _ (.executing x) => x.record
  | .looping _ (.reporting tally) => tally
  | _ => {}

theorem record_roused (th : Thread J) : th.roused.record = th.record :=
  apply_roused (fun th role hd => by simp [record, hd]) th

theorem steady_record {f : Tally → Nat} (hf : Tally.Counts f) :
    Steady fun th : Thread J => f th.record where
  idle := hf.zero
  newborn := hf.zero
  roused th := by rw [record_roused]

theorem Sound.record_of_inFlight {th : Thread J} (h : th.Sound) (hn : th.inFlight = 0) :
    th.record = {} := by
  unfold record
  split
  · rename_i role x hd
    exact absurd rfl ((h.stage_of_inFlight hn hd).1 x)
  · rename_i role tally hd
    exact absurd rfl ((h.stage_of_inFlight hn hd).2 tally)
  · rfl

end Thread

/-! ## One step, and a run -/

/-- A step adds the verdicts on the jobs that end in it to the record of its thread, and
a report moves that record to the totals. -/
theorem Shift.totals {l : Ledger J} {s : Option Nat} {th : Thread J}
    (h : Shift t l s th m o) {f : Tally → Nat} (hf : Tally.Counts f) :
    f o.ledger.totals + f o.thread.record =
      f l.totals + f th.record + tallyOf f (o.events.flatMap Event.endedJobs) := by
  cases h with
  | still _ hc =>
    rw [endedJobs_of_clerical hc]
    rfl
  | clerical _ _ _ hc =>
    rw [endedJobs_of_clerical hc]
    rfl
  | configure | flag | spawn | retell => rfl
  | alarm =>
    have hsame : (th.roused.withCall (some (.stopping .collecting))).record = th.record :=
      Thread.record_roused th
    rw [hsame]
    rfl
  | take hd =>
    have hstart : (Execution.start l.batch).record = {} := rfl
    simp [Thread.record, hd, hstart, Event.endedJobs, tallyOf, total, Ledger.take,
      Ledger.totals]
  | work hd hx =>
    simp [Thread.record, hd, Event.endedJobs, Execution.counts_record hf hx,
      Nat.add_assoc]
  | finish hd hx =>
    simp [Thread.record, hd, Event.endedJobs, tallyOf, total,
      Execution.record_of_finished hx]
  | @report role tally hd =>
    have hout : (th.withDuty (.looping role
        (if (l.report tally).todo = 0 then .rousing else .taking))).record = {} := by
      split <;> rfl
    have hin : th.record = tally := by simp [Thread.record, hd]
    rw [hout, hin, Ledger.totals_report, hf.add, hf.zero]
    rfl
  | @leave role v hd =>
    have hin : th.record = {} := by simp [Thread.record, hd]
    rw [hin]
    cases role <;> rfl
  | seize _ hd =>
    have hin : th.record = {} := by rcases hd with hd | hd <;> simp [Thread.record, hd]
    rw [hin]
    rfl
  | opened hd | submit hd | push hd | answer hd | conclude hd | reset hd | release hd
  | knock hd | rouseAll hd | rouseOne hd | engage hd | dismiss hd | enter hd | quit hd
  | drain hd | sleep hd | stir hd | wake hd | announce hd =>
    have hin : th.record = {} := by simp [Thread.record, hd]
    rw [hin]
    rfl

theorem Run.totals (hp : p.Sound) (hr : Run p h q) {f : Tally → Nat}
    (hf : Tally.Counts f) :
    f q.ledger.totals + total (fun th => f th.record) q.threads =
      f p.ledger.totals + total (fun th => f th.record) p.threads +
        tallyOf f (jobsEnded h) := by
  refine Run.induct
    (C := fun h q => f q.ledger.totals + total (fun th => f th.record) q.threads =
    f p.ledger.totals + total (fun th => f th.record) p.threads + tallyOf f (jobsEnded h))
      hp rfl ?_ hr
  intro h p t m q es _ ih ht
  obtain ⟨o, hs, ht⟩ := ht
  have hstep := hs.totals hf
  have hthreads := ht.total_threads (Thread.steady_record hf)
  simp only [jobsEnded, collect_append, collect_singleton, tallyOf_append] at ih ⊢
  rw [ht.events, ht.ledger]
  omega

theorem Pool.Sound.total_record (hp : p.Sound) (hb : p.Blank) {f : Tally → Nat}
    (hf : Tally.Counts f) : total (fun th => f th.record) p.threads = 0 := by
  apply total_eq_zero
  intro th hth
  obtain ⟨u, rfl⟩ := exists_thread_of_mem hth
  rw [(hp.threads u).record_of_inFlight (hb.inFlight u), hf.zero]

/-- From one state with nothing under way to another one, the totals grow by the
verdicts on the jobs that ended in between. -/
theorem Run.totals_of_blank (hp : p.Sound) (hb : p.Blank) (hr : Run p h q) (hq : q.Sound)
    (hb' : q.Blank) {f : Tally → Nat} (hf : Tally.Counts f) :
    f q.ledger.totals = f p.ledger.totals + tallyOf f (jobsEnded h) := by
  have hsum := Run.totals hp hr hf
  rw [hp.total_record hb hf, hq.total_record hb' hf] at hsum
  omega

end CheckRounds
