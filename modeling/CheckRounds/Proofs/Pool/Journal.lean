import CheckRounds.Proofs.Job.Fates
import CheckRounds.Proofs.Pool.Batches
import CheckRounds.Proofs.Pool.Totals
import Mathlib.Algebra.BigOperators.Group.Finset.Piecewise
/-!
The batches of one thread, job by job.

A thread logs a batch when the last job of it has ended, and reports it afterwards. So
what a history shows of a thread falls into pieces: the jobs that ended up to one log
entry are those of one batch, and the entry is the tally of their verdicts (`Kept`).
What a history shows of the pool is what it shows of the threads that moved, all
together.
-/

namespace CheckRounds

open Pool

variable {J E : Type} {n t u : Nat} {h k : List (Moment J E)} {m : Move J E}
  {es : List (Event J E)} {p q : Pool J} {o : Upshot J E}

/-! ## What a history shows of one thread -/

namespace Event

/-- The log entry on a batch that was carried out. -/
def executions : Event J E → List Tally
  | .executed _ tally => [tally]
  | _ => []

/-- The log entry on a job that crashed. -/
def crashes : Event J E → List Payload
  | .job (.crashLogged payload) => [payload]
  | _ => []

/-- The event belongs to a batch. -/
def ofBatch : Event J E → Bool
  | .took _ _ => true
  | .job _ => true
  | .executed _ _ => true
  | .reported _ => true
  | _ => false

theorem not_ofBatch_of_clerical {e : Event J E} (h : e.clerical = true) :
    e.ofBatch = false := by
  cases e with
  | took | job | executed | reported => cases h
  | _ => rfl

end Event

/-- The jobs of a thread that ended, each with how it behaved: those of the batches that
it logged, one batch after another, and those that ended since. -/
structure Journal (J : Type) where
  done : List (List (J × Fate)) := []
  now : List (J × Fate) := []

def Journal.after (b : Journal J) : Event J E → Journal J
  | .job e => { b with now := b.now ++ e.endedJobs }
  | .executed _ _ => ⟨b.done ++ [b.now], []⟩
  | _ => b

/-- What the history of a thread comes to. -/
def journal (h : List (Moment J E)) : Journal J :=
  (events h).foldl (fun b e => b.after e.2) {}

theorem journal_concat (h : List (Moment J E)) (t : Nat) (m : Move J E)
    (es : List (Event J E)) :
    journal (h ++ [⟨t, m, es⟩]) = es.foldl Journal.after (journal h) := by
  simp [journal, events, List.foldl_append, List.foldl_map]

theorem Event.of_not_ofBatch {e : Event J E} (h : e.ofBatch = false) :
    e.endedJobs = [] ∧ e.batches = [] ∧ e.executions = [] ∧ e.tallies = [] ∧
      e.crashes = [] ∧ ∀ b : Journal J, b.after e = b := by
  cases e with
  | took | job | executed | reported => cases h
  | _ => exact ⟨rfl, rfl, rfl, rfl, rfl, fun _ => rfl⟩

theorem foldl_after_of_quiet (b : Journal J) (hq : ∀ e ∈ es, e.ofBatch = false) :
    es.foldl Journal.after b = b := by
  induction es with
  | nil => rfl
  | cons e es ih =>
    obtain ⟨_, _, _, _, _, hafter⟩ := Event.of_not_ofBatch (hq e List.mem_cons_self)
    rw [List.foldl_cons, hafter]
    exact ih fun e he => hq e (List.mem_cons_of_mem _ he)

/-- The tally of a batch of jobs that ended so. -/
def tallyOn (js : List (J × Fate)) : Tally := .ofList (js.map fun j => j.2.verdict)

theorem tallyOn_append (js ks : List (J × Fate)) :
    tallyOn (js ++ ks) =
      (ks.map fun j => j.2.verdict).foldl Tally.count (tallyOn js) := by
  simp [tallyOn, Tally.ofList]

/-! ## A batch and the crashes of its jobs -/

namespace Execution

/-- The crash that was caught and is about to be logged. -/
def toLog (x : Execution J) : List Payload :=
  match x.phase with
  | .crashed payload => [payload]
  | _ => []

theorem toLog_of_finished {x : Execution J} (h : x.finished = true) : x.toLog = [] := by
  unfold finished at h
  split at h
  · rename_i hp _
    simp [toLog, hp]
  · cases h

/-- A job that ends has crashed just if a crash is to be logged next. -/
theorem toLog_step {x y : Execution J} {d : Deed E} {e : JobEvent J E}
    (h : x.step d = some (y, e)) :
    x.toLog ++ e.endedJobs.filterMap (fun j => j.2.payload?) =
      (Event.job e).crashes ++ y.toLog := by
  cases shift_of_step h with
  | call hp => simp [toLog, hp, JobEvent.endedJobs, Event.crashes]
  | conclude hp => simp [toLog, hp, JobEvent.endedJobs, Event.crashes]
  | pass hp => simp [toLog, hp, JobEvent.endedJobs, Event.crashes, Fate.payload?]
  | crash hp => simp [toLog, hp, JobEvent.endedJobs, Event.crashes, payload_of_crash hp h]
  | log hp => simp [toLog, hp, JobEvent.endedJobs, Event.crashes]
  | effect => simp [JobEvent.endedJobs, Event.crashes]

end Execution

namespace Duty

/-- The batch that is carried out. -/
def execution? : Duty J → Option (Execution J)
  | .looping _ (.executing x) => some x
  | _ => none

/-- The tally that is about to be reported. -/
def toReport : Duty J → List Tally
  | .looping _ (.reporting tally) => [tally]
  | _ => []

end Duty

namespace Thread

def execution? (th : Thread J) : Option (Execution J) := th.duty.execution?

def toReport (th : Thread J) : List Tally := th.duty.toReport

/-- The crash that the thread is about to log. -/
def toLog (th : Thread J) : List Payload := th.execution?.elim [] Execution.toLog

theorem execution?_of_duty {th : Thread J} {d : Duty J} (hd : th.duty = d) :
    th.execution? = d.execution? := congrArg Duty.execution? hd

theorem toReport_of_duty {th : Thread J} {d : Duty J} (hd : th.duty = d) :
    th.toReport = d.toReport :=
  congrArg Duty.toReport hd

theorem execution?_roused (th : Thread J) : th.roused.execution? = th.execution? :=
  apply_roused (fun _ _ hd => (execution?_of_duty hd).symm) th

theorem toReport_roused (th : Thread J) : th.roused.toReport = th.toReport :=
  apply_roused (fun _ _ hd => (toReport_of_duty hd).symm) th

/-- A thread with nothing under way has neither a batch nor a report to make. -/
theorem Sound.idle_of_inFlight {th : Thread J} (h : th.Sound) (hf : th.inFlight = 0) :
    th.execution? = none ∧ th.toReport = [] := by
  constructor
  · unfold execution? Duty.execution?
    split
    · rename_i role x hd
      exact absurd rfl ((h.stage_of_inFlight hf hd).1 x)
    · rfl
  · unfold toReport Duty.toReport
    split
    · rename_i role tally hd
      exact absurd rfl ((h.stage_of_inFlight hf hd).2 tally)
    · rfl

end Thread

/-! ## The books of one thread -/

/-- The thread took its batches one after another, logged each with the tally of its
jobs, reported it after that, and logged each crash; only what it is at is left over. -/
structure Kept (k : List (Moment J E)) (th : Thread J) : Prop where
  batches : collect Event.batches k = (journal k).done.map (·.map Prod.fst) ++
    (th.execution?.map fun x => (journal k).now.map Prod.fst ++ x.unended).toList
  ended : jobsEnded k = (journal k).done.flatten ++ (journal k).now
  executions : collect Event.executions k = (journal k).done.map tallyOn
  reports : collect Event.executions k = collect Event.tallies k ++ th.toReport
  crashes : (jobsEnded k).filterMap (fun j => j.2.payload?) =
    collect Event.crashes k ++ th.toLog
  record : ∀ x, th.execution? = some x → x.record = tallyOn (journal k).now
  between : th.execution? = none → (journal k).now = []

theorem Kept.start {th : Thread J} (hx : th.execution? = none) (hr : th.toReport = []) :
    Kept ([] : List (Moment J E)) th where
  batches := by simp [hx, journal]
  ended := rfl
  executions := rfl
  reports := by simp [hr]
  crashes := by simp [jobsEnded, Thread.toLog, hx]
  record x h := by simp [hx] at h
  between _ := rfl

theorem Kept.congr {th th' : Thread J} (hk : Kept k th)
    (hx : th'.execution? = th.execution?) (hr : th'.toReport = th.toReport) :
    Kept k th' where
  batches := by rw [hx]; exact hk.batches
  ended := hk.ended
  executions := hk.executions
  reports := by rw [hr]; exact hk.reports
  crashes := by rw [Thread.toLog, hx]; exact hk.crashes
  record x h := hk.record x (hx ▸ h)
  between h := hk.between (hx ▸ h)

/-- Events that belong to no batch leave the books as they are. -/
theorem Kept.of_quiet {th th' : Thread J} (hk : Kept k th)
    (hq : ∀ e ∈ es, e.ofBatch = false) (hx : th'.execution? = th.execution?)
    (hr : th'.toReport = th.toReport) :
    Kept (k ++ [⟨u, m, es⟩]) th' := by
  have hnone : ∀ {α : Type} {f : Event J E → List α},
      (∀ e : Event J E, e.ofBatch = false → f e = []) →
      collect f (k ++ [⟨u, m, es⟩]) = collect f k := by
    intro α f hf
    rw [collect_append, collect_singleton, List.flatMap_eq_nil_iff.2
      fun e he => hf e (hq e he), List.append_nil]
  have hjournal : journal (k ++ [⟨u, m, es⟩]) = journal k := by
    rw [journal_concat, foldl_after_of_quiet _ hq]
  have hended : jobsEnded (k ++ [⟨u, m, es⟩]) = jobsEnded k :=
    hnone fun e he => (Event.of_not_ofBatch he).1
  have hbatches := hnone fun e he => (Event.of_not_ofBatch he).2.1
  have hexecutions := hnone fun e he => (Event.of_not_ofBatch he).2.2.1
  have htallies := hnone fun e he => (Event.of_not_ofBatch he).2.2.2.1
  have hcrashes := hnone fun e he => (Event.of_not_ofBatch he).2.2.2.2.1
  have hk' := hk.congr hx hr
  constructor <;> simp only [hjournal, hended, hbatches, hexecutions, htallies, hcrashes]
  · exact hk'.batches
  · exact hk'.ended
  · exact hk'.executions
  · exact hk'.reports
  · exact hk'.crashes
  · exact hk'.record
  · exact hk'.between

theorem Kept.of_duty {th th' : Thread J} {d : Duty J} (hk : Kept k th)
    (hq : ∀ e ∈ es, e.ofBatch = false) (hd : th.duty = d)
    (hx : th'.execution? = d.execution?) (hr : th'.toReport = d.toReport) :
    Kept (k ++ [⟨u, m, es⟩]) th' :=
  hk.of_quiet hq (hx.trans (Thread.execution?_of_duty hd).symm)
    (hr.trans (Thread.toReport_of_duty hd).symm)

theorem Kept.take {th th' : Thread J} {role : Role} {batch : List J} (hk : Kept k th)
    (hx : th.execution? = none) (hr : th.toReport = [])
    (hx' : th'.execution? = some (.start batch)) (hr' : th'.toReport = []) :
    Kept (k ++ [⟨u, m, [.took role batch]⟩]) th' := by
  have hnow := hk.between hx
  have hjournal : journal (k ++ [⟨u, m, [.took role batch]⟩]) = journal k :=
    journal_concat _ _ _ _
  have hended : jobsEnded (k ++ [⟨u, m, [.took role batch]⟩]) = jobsEnded k := by
    simp [jobsEnded, Event.endedJobs]
  refine ⟨?_, ?_, ?_, ?_, ?_, ?_, ?_⟩
  · simp [hjournal, hk.batches, hx, hx', hnow, Event.batches, Execution.unended,
      Execution.current?, Execution.start]
  · rw [hended, hjournal, hk.ended]
  · simp [hjournal, hk.executions, Event.executions]
  · simp [hk.reports, hr, hr', Event.executions, Event.tallies]
  · simp [hended, hk.crashes, Thread.toLog, hx, hx', Event.crashes, Execution.toLog,
      Execution.start]
  · intro x h
    obtain rfl := Option.some.inj (hx'.symm.trans h)
    rw [hjournal, hnow]
    rfl
  · intro h
    cases hx'.symm.trans h

theorem Kept.work {th th' : Thread J} {x y : Execution J} {d : Deed E} {e : JobEvent J E}
    (hk : Kept k th) (hstep : x.step d = some (y, e)) (hx : th.execution? = some x)
    (hx' : th'.execution? = some y) (hr : th'.toReport = th.toReport) :
    Kept (k ++ [⟨u, m, [.job e]⟩]) th' := by
  have hjournal : journal (k ++ [⟨u, m, [.job e]⟩]) =
      ⟨(journal k).done, (journal k).now ++ e.endedJobs⟩ := journal_concat _ _ _ _
  have hended : jobsEnded (k ++ [⟨u, m, [.job e]⟩]) = jobsEnded k ++ e.endedJobs := by
    simp [jobsEnded, Event.endedJobs]
  refine ⟨?_, ?_, ?_, ?_, ?_, ?_, ?_⟩
  · simp [hjournal, hk.batches, hx, hx', Event.batches, Execution.unended_step hstep]
  · simp [hended, hjournal, hk.ended]
  · simp [hjournal, hk.executions, Event.executions]
  · simp [hk.reports, hr, Event.executions, Event.tallies]
  · have hcrash := Execution.toLog_step hstep
    have hbefore := hk.crashes
    rw [Thread.toLog, hx] at hbefore
    rw [hended, List.filterMap_append, hbefore, Option.elim_some, List.append_assoc,
      hcrash, Thread.toLog, hx']
    simp
  · intro z h
    obtain rfl := Option.some.inj (hx'.symm.trans h)
    rw [hjournal, tallyOn_append, ← hk.record x hx, Execution.record_step hstep]
  · intro h
    cases hx'.symm.trans h

theorem Kept.finish {th th' : Thread J} {role : Role} {x : Execution J} (hk : Kept k th)
    (hf : x.finished = true) (hx : th.execution? = some x) (hr : th.toReport = [])
    (hx' : th'.execution? = none) (hr' : th'.toReport = [x.tally]) :
    Kept (k ++ [⟨u, m, [.executed role x.tally]⟩]) th' := by
  have hjournal : journal (k ++ [⟨u, m, [.executed role x.tally]⟩]) =
      ⟨(journal k).done ++ [(journal k).now], []⟩ := journal_concat _ _ _ _
  have hended : jobsEnded (k ++ [⟨u, m, [.executed role x.tally]⟩]) = jobsEnded k := by
    simp [jobsEnded, Event.endedJobs]
  refine ⟨?_, ?_, ?_, ?_, ?_, ?_, ?_⟩
  · simp [hjournal, hk.batches, hx, hx', Event.batches, Execution.unended_of_finished hf]
  · simp [hended, hjournal, hk.ended]
  · have htally := hk.record x hx
    rw [Execution.record_of_finished hf] at htally
    rw [hjournal, collect_append, collect_singleton, hk.executions,
      List.map_append, htally]
    rfl
  · simp [hk.reports, hr, hr', Event.executions, Event.tallies]
  · simp [hended, hk.crashes, Thread.toLog, hx, hx', Event.crashes,
      Execution.toLog_of_finished hf]
  · intro z h
    cases hx'.symm.trans h
  · intro _
    rw [hjournal]

theorem Kept.report {th th' : Thread J} {tally : Tally} (hk : Kept k th)
    (hx : th.execution? = none) (hr : th.toReport = [tally]) (hx' : th'.execution? = none)
    (hr' : th'.toReport = []) :
    Kept (k ++ [⟨u, m, [.reported tally]⟩]) th' := by
  have hjournal : journal (k ++ [⟨u, m, [.reported tally]⟩]) = journal k :=
    journal_concat _ _ _ _
  have hended : jobsEnded (k ++ [⟨u, m, [.reported tally]⟩]) = jobsEnded k := by
    simp [jobsEnded, Event.endedJobs]
  refine ⟨?_, ?_, ?_, ?_, ?_, ?_, ?_⟩
  · simp [hjournal, hk.batches, hx, hx', Event.batches]
  · rw [hended, hjournal, hk.ended]
  · simp [hjournal, hk.executions, Event.executions]
  · simp [hk.reports, hr, hr', Event.executions, Event.tallies]
  · simp [hended, hk.crashes, Thread.toLog, hx, hx', Event.crashes]
  · intro z h
    cases hx'.symm.trans h
  · intro _
    rw [hjournal, hk.between hx]

/-- What a thread does keeps its books. -/
theorem Shift.kept {l : Ledger J} {s : Option Nat} {th : Thread J}
    (h : Shift t l s th m o) (hk : Kept k th) :
    Kept (k ++ [⟨t, m, o.events⟩]) o.thread := by
  cases h with
  | still _ hc =>
    exact hk.of_quiet (fun e he => Event.not_ofBatch_of_clerical (hc e he)) rfl rfl
  | clerical _ _ _ hc =>
    exact hk.of_quiet (fun e he => Event.not_ofBatch_of_clerical (hc e he)) rfl rfl
  | configure | flag | spawn | retell =>
    exact hk.of_quiet (by simp [Event.ofBatch]) rfl rfl
  | alarm =>
    exact hk.of_quiet (by simp [Event.ofBatch]) (Thread.execution?_roused th)
      (Thread.toReport_roused th)
  | take hd =>
    exact hk.take (Thread.execution?_of_duty hd) (Thread.toReport_of_duty hd) rfl rfl
  | work hd hx =>
    exact hk.work hx (Thread.execution?_of_duty hd) rfl (Thread.toReport_of_duty hd).symm
  | finish hd hx =>
    exact hk.finish hx (Thread.execution?_of_duty hd) (Thread.toReport_of_duty hd) rfl rfl
  | report hd =>
    refine hk.report (Thread.execution?_of_duty hd) (Thread.toReport_of_duty hd) ?_ ?_ <;>
      split <;> rfl
  | @leave role v hd => cases role <;> exact hk.of_duty (by simp) hd rfl rfl
  | seize _ hd => rcases hd with hd | hd <;> exact hk.of_duty (by simp) hd rfl rfl
  | opened hd | submit hd | push hd | answer hd | conclude hd | reset hd | release hd
  | knock hd | rouseAll hd | rouseOne hd | engage hd | dismiss hd | enter hd | quit hd
  | drain hd | sleep hd | stir hd | wake hd | announce hd =>
    exact hk.of_duty (by simp [Event.ofBatch]) hd rfl rfl

theorem Turns.kept (ht : Turns p t m q es) (hk : Kept (ofThread u h) (p.thread u)) :
    Kept (ofThread u (h ++ [⟨t, m, es⟩])) (q.thread u) := by
  refine ht.own (D := Kept) (fun k th => ?_)
    (fun k => ⟨fun hk => hk.congr rfl rfl, fun hk => hk.congr rfl rfl⟩)
    (fun hk hs => hs.kept hk) hk
  have hx := Thread.execution?_roused th
  have hr := Thread.toReport_roused th
  exact ⟨fun hk => hk.congr hx.symm hr.symm, fun hk => hk.congr hx hr⟩

/-- Each thread has kept its books since the pool was new. -/
theorem Reached.kept (hr : Reached n h p) (u : Nat) : Kept (ofThread u h) (p.thread u) :=
  hr.induct (C := fun h p => Kept (ofThread u h) (p.thread u)) (.start rfl rfl)
  fun _ hk ht => ht.kept hk

theorem Pool.Sound.kept_start (hp : p.Sound) (hb : p.Blank) (u : Nat) :
    Kept ([] : List (Moment J E)) (p.thread u) := by
  obtain ⟨hx, hr⟩ := (hp.threads u).idle_of_inFlight (hb.inFlight u)
  exact .start hx hr

/-- Each thread has kept its books since a round was opened, or drained, as if it had
none before. -/
theorem Reached.kept_since {marks : Event J E → Bool} (hm : Begins marks)
    (hr : Reached n h p) (hround : (p.thread t).round ≠ none) (u : Nat) :
    Kept (ofThread u (since marks t h)) (p.thread u) :=
  Run.since_induct (C := fun k p => Kept (ofThread u k) (p.thread u)) hm (.new n)
    (fun hq => hq.sound.kept_start hq.blank u) (fun _ _ hk ht _ => ht.kept hk) hr hround

/-! ## The three counts of jobs -/

theorem Fate.crashed_iff (f : Fate) :
    f.verdict = .crashed ↔ f.payload?.isSome = true := by
  obtain ⟨answer, crash⟩ := f
  cases answer with
  | error payload => exact ⟨fun _ => rfl, fun _ => rfl⟩
  | ok b =>
    cases crash with
    | none => cases b <;> simp [Fate.verdict, Fate.payload?, Verdict.ofAnswer]
    | some payload => exact ⟨fun _ => rfl, fun _ => rfl⟩

theorem Verdict.executed_tally (v : Verdict) : v.tally.executed = 1 := by cases v <;> rfl

theorem Verdict.failed_tally (v : Verdict) : v.tally.failed = (!v.ok).toNat := by
  cases v <;> rfl

theorem Verdict.crashed_tally (v : Verdict) :
    v.tally.crashed = (v == .crashed).toNat := by
  cases v <;> rfl

theorem tallyOf_executed (js : List (J × Fate)) :
    tallyOf Tally.executed js = js.length := by
  simp only [tallyOf, Verdict.executed_tally, total_one]

theorem tallyOf_failed (js : List (J × Fate)) :
    tallyOf Tally.failed js = js.countP fun j => !j.2.outcome := by
  simp only [tallyOf, Verdict.failed_tally, total_toNat, Fate.ok_verdict]

theorem tallyOf_crashed (js : List (J × Fate)) :
    tallyOf Tally.crashed js = js.countP fun j => j.2.payload?.isSome := by
  simp only [tallyOf, Verdict.crashed_tally, total_toNat]
  congr 1
  funext j
  rw [Bool.eq_iff_iff, beq_iff_eq, Fate.crashed_iff]

theorem tallyOf_crashed_le (js : List (J × Fate)) :
    tallyOf Tally.crashed js ≤ tallyOf Tally.failed js := by
  rw [tallyOf_crashed, tallyOf_failed]
  refine List.countP_mono_left fun j _ hcrash => ?_
  have hverdict := (Fate.crashed_iff j.2).2 hcrash
  rw [← Fate.ok_verdict, hverdict]
  rfl

theorem tallyOf_failed_le (js : List (J × Fate)) :
    tallyOf Tally.failed js ≤ tallyOf Tally.executed js := by
  rw [tallyOf_failed, tallyOf_executed]
  exact List.countP_le_length

/-! ## All threads together -/

/-- The threads that moved. -/
def movers (h : List (Moment J E)) : Finset Nat := (h.map Moment.thread).toFinset

theorem total_collect {α : Type} (f : Event J E → List α) (g : α → Nat)
    (h : List (Moment J E)) :
    total g (collect f h) = ∑ u ∈ movers h, total g (collect f (ofThread u h)) := by
  have hmore : ∀ s : Finset Nat, movers h ⊆ s →
      total g (collect f h) = ∑ u ∈ s, total g (collect f (ofThread u h)) := by
    intro s hs
    induction h using List.reverseRecOn with
    | nil => simp [collect, events, ofThread, total]
    | append_singleton h m ih =>
      have hm : m.thread ∈ s := hs (by simp [movers])
      have hsub : movers h ⊆ s := fun u hu => hs (by simp_all [movers])
      have hone : ∀ u, total g (collect f (ofThread u [m])) =
          if m.thread = u then total g (collect f [m]) else 0 := by
        intro u
        rw [ofThread_singleton]
        split
        · rfl
        · rfl
      simp only [collect_append, ofThread_append, total_append,
        Finset.sum_add_distrib, hone]
      rw [Finset.sum_ite_eq, if_pos hm, ih hsub]
  exact hmore _ (Finset.Subset.refl _)

theorem Tally.Counts.tallyOn {f : Tally → Nat} (hf : Counts f) (js : List (J × Fate)) :
    f (tallyOn js) = tallyOf f js := by
  rw [CheckRounds.tallyOn, ofList, hf.foldl, hf.zero, Nat.zero_add, total_map]
  rfl

theorem Tally.Counts.total_tallyOn {f : Tally → Nat} (hf : Counts f)
    (jss : List (List (J × Fate))) :
    total f (jss.map CheckRounds.tallyOn) = tallyOf f jss.flatten := by
  rw [total_map, tallyOf, total_flatten]
  exact total_congr fun js _ => hf.tallyOn js

/-- The log entries on the batches. -/
def executions (h : List (Moment J E)) : List Tally := collect Event.executions h

/-- The log entries on the crashes. -/
def crashLogs (h : List (Moment J E)) : List Payload := collect Event.crashes h

/-- Where no thread is at a batch, the entries on the batches count the jobs that
ended. -/
theorem total_executions (hk : ∀ u, Kept (ofThread u k) (p.thread u))
    (hp : ∀ u, (p.thread u).execution? = none) {f : Tally → Nat} (hf : Tally.Counts f) :
    total f (executions k) = tallyOf f (jobsEnded k) := by
  rw [executions, total_collect, tallyOf, jobsEnded, total_collect]
  refine Finset.sum_congr rfl fun u _ => ?_
  have hended := (hk u).ended
  rw [(hk u).between (hp u), List.append_nil] at hended
  rw [(hk u).executions, hf.total_tallyOn, ← hended]
  rfl

/-- Where no thread is at a batch, the crashes that were logged are those of the jobs
that ended. -/
theorem perm_crashLogs (hk : ∀ u, Kept (ofThread u k) (p.thread u))
    (hp : ∀ u, (p.thread u).execution? = none) :
    (crashLogs k).Perm ((jobsEnded k).filterMap fun j => j.2.payload?) := by
  have hfilter : (jobsEnded k).filterMap (fun j => j.2.payload?) =
      collect (fun e => e.endedJobs.filterMap fun j => j.2.payload?) k := by
    simp [jobsEnded, collect, List.filterMap_flatMap]
  rw [hfilter]
  refine perm_of_total fun f => ?_
  rw [crashLogs, total_collect, total_collect]
  refine Finset.sum_congr rfl fun u _ => ?_
  have hcrashes := (hk u).crashes
  rw [Thread.toLog, hp u, Option.elim_none, List.append_nil] at hcrashes
  rw [← hcrashes]
  simp [jobsEnded, collect, List.filterMap_flatMap]

end CheckRounds
