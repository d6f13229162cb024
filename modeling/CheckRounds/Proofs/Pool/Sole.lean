import CheckRounds.Proofs.Attendance
import CheckRounds.Proofs.Pool.Grabs
import CheckRounds.Proofs.Pool.Shares
/-!
One thread alone in the work loop.

While nobody else is in the loop the divisor of a share is two: the thread counts as one
participant, and nobody is idle. So the sizes of its batches follow from the number of
jobs (`Pool.Sole.batches_step`), and it calls the jobs in the order in which they wait
(`InTurn`).
-/

namespace CheckRounds

open Pool

variable {J E : Type} {n t u b : Nat} {h k : List (Moment J E)} {m : Move J E}
  {es : List (Event J E)} {p q r : Pool J} {o : Upshot J E} {role : Role}

/-- No thread but `t` is in the work loop, or about to enter it. -/
def Pool.Sole (t : Nat) (p : Pool J) : Prop := ∀ u, u ≠ t → (p.thread u).loops = false

/-- A thread outside of the work loop has no jobs and is not counted. -/
theorem Thread.of_not_loops {th : Thread J} (h : th.loops = false) :
    th.uncalled = [] ∧ th.inFlight = 0 ∧ th.participates = false ∧ th.sleeps = false := by
  cases hd : th.duty with
  | looping role stage => simp [loops, hd] at h
  | _ => simp [uncalled, inFlight, participates, sleeps, hd]

namespace Pool.Sole

theorem eq_of_looping (hp : p.Sole t) {stage : LoopStage J}
    (hd : (p.thread u).duty = .looping role stage) :
    u = t := by
  by_contra hu
  cases (Thread.loops_of_duty hd).symm.trans (hp u hu)

/-- Nobody joins as long as no worker is started, and whoever opens a round does not ask
for it. -/
theorem step (hp : p.Sole t) (hset : p.Settled) (hstep : p.step u m = some (q, es))
    (hn : u ≠ t → (p.thread u).round = none ∨ m.calls = []) : q.Sole t := by
  intro v hv
  obtain ⟨o, hs, ht⟩ := turns_of_step hstep
  by_cases hvu : v = u
  · subst hvu
    rw [ht.self]
    exact hs.stays_out (hp v hv) (hn hv)
  · rw [ht.same_of_settled hs hset Thread.loops_roused hvu, hp v hv]

/-- Who looks for work is counted once. -/
theorem portion_eq (hp : p.Sole t) (hc : Counted p)
    (hd : (p.thread t).duty = .looping role .taking) :
    p.ledger.portion = Ledger.share p.ledger.pending.length p.ledger.batchSize 1 0 := by
  have hparticipants : p.ledger.participants = 1 := by
    rw [hc.participants, ← total_toNat, total_eq_of_sole (t := t) rfl fun u hu => by
      rw [(Thread.of_not_loops (hp u hu)).2.2.1]; rfl, Thread.participates_of_duty hd]
    rfl
  have hidle : p.ledger.idle = 0 := by
    rw [hc.idle, ← total_toNat, total_eq_of_sole (t := t) rfl fun u hu => by
      rw [(Thread.of_not_loops (hp u hu)).2.2.2]; rfl, Thread.sleeps_of_duty hd]
    rfl
  rw [Ledger.portion, hparticipants, hidle]

/-- What a step takes is the next batch of a thread that is alone. -/
theorem batches_step (hp : p.Sole t) (hc : Counted p) (hsound : p.Sound)
    (hstep : p.step u m = some (q, es)) (hadd : es.flatMap Event.addedJobs = []) :
    (grabs [⟨u, m, es⟩]).map Prod.snd ++ Ledger.soleBatches p.ledger.batchSize
      q.ledger.pending =
      Ledger.soleBatches p.ledger.batchSize p.ledger.pending := by
  obtain ⟨o, hs, ht⟩ := turns_of_step hstep
  rw [grabs_singleton, ht.ledger, ht.events]
  rw [ht.events] at hadd
  rcases hs.pending_cases
    with ⟨hpending, _, hnone⟩ | ⟨jobs, hd, rfl⟩ | ⟨role, hd, hwork, rfl⟩
  · rw [hpending, hnone]
    rfl
  · exact absurd (by simpa [Event.addedJobs] using hadd)
      ((hsound.threads u).of_adding hd).1
  · obtain rfl := hp.eq_of_looping hd
    rw [Ledger.soleBatches_of_ne_nil _ hwork, ← hp.portion_eq hc hd]
    rfl

end Pool.Sole

/-! ## Who takes the jobs, and in which order they are called -/

/-- Thread `t` takes these jobs, in the batches of a thread that is alone, and calls
them in their order. What it has not yet taken, or not yet called, is left in that
order. -/
structure InTurn (t b : Nat) (jobs : List J) (k : List (Moment J E)) (q : Pool J) :
    Prop where
  takers : ∀ g ∈ grabs k, g.1 = t
  batches : (grabs k).map Prod.snd ++ Ledger.soleBatches b q.ledger.pending =
    Ledger.soleBatches b jobs
  order : jobsCalled k ++ (q.thread t).uncalled ++ q.ledger.pending = jobs

theorem InTurn.start (b : Nat) (hp : (p.thread t).uncalled = []) :
    InTurn t b p.ledger.pending ([] : List (Moment J E)) p where
  takers g hg := by cases hg
  batches := rfl
  order := by simp [jobsCalled, hp]

/-- Nobody but `t` takes or calls jobs. -/
theorem Pool.Sole.of_ne (hp : p.Sole t) (hs : Shift u p.ledger p.slot (p.thread u) m o)
    (hu : u ≠ t) :
    o.events.flatMap Event.batches = [] ∧ o.events.flatMap Event.takenJobs = [] ∧
      o.events.flatMap Event.calledJobs = [] := by
  have hnone : o.events.flatMap Event.batches = [] := by
    rcases hs.pending_cases with ⟨_, _, hnone⟩ | ⟨jobs, _, rfl⟩ | ⟨role, hd, _⟩
    · exact hnone
    · rfl
    · exact absurd (hp.eq_of_looping hd) hu
  have htaken : o.events.flatMap Event.takenJobs = [] := by
    rw [← flatten_batches, hnone]
    rfl
  have hcalled := hs.flow.called
  rw [(Thread.of_not_loops (hp u hu)).1, htaken, List.nil_append] at hcalled
  exact ⟨hnone, htaken, (List.append_eq_nil_iff.1 hcalled.symm).1⟩

/-- The order is that of the jobs that wait, whatever is added to them. -/
theorem InTurn.order_step {jobs : List J} (hk : InTurn t b jobs k q) (hsole : q.Sole t)
    (hstep : q.step u m = some (r, es)) :
    jobsCalled (k ++ [⟨u, m, es⟩]) ++ (r.thread t).uncalled ++ r.ledger.pending =
      jobs ++ es.flatMap Event.addedJobs := by
  obtain ⟨o, hs, ht⟩ := turns_of_step hstep
  have htaken := hs.flow.taken
  have hown : es.flatMap Event.calledJobs ++ (r.thread t).uncalled =
      (q.thread t).uncalled ++ es.flatMap Event.takenJobs := by
    rw [ht.events]
    by_cases hu : u = t
    · subst hu
      rw [ht.self, hs.flow.called]
    · obtain ⟨_, htaken, hcalled⟩ := hsole.of_ne hs hu
      rw [htaken, hcalled, ht.same Thread.uncalled_roused rfl (Ne.symm hu),
        List.append_nil, List.nil_append]
  rw [← ht.events, ← ht.ledger] at htaken
  calc jobsCalled (k ++ [⟨u, m, es⟩]) ++ (r.thread t).uncalled ++ r.ledger.pending
      = jobsCalled k ++ (es.flatMap Event.calledJobs ++ (r.thread t).uncalled) ++
        r.ledger.pending := by
        simp [jobsCalled]
    _ = jobsCalled k ++ (q.thread t).uncalled ++
      (es.flatMap Event.takenJobs ++ r.ledger.pending) := by
        rw [hown]
        simp
    _ = jobs ++ es.flatMap Event.addedJobs := by
        rw [← htaken, ← List.append_assoc, hk.order]

theorem InTurn.pending_of_nil (hk : InTurn t b [] k q) :
    grabs k = [] ∧ q.ledger.pending = [] := by
  have hbatches := hk.batches
  rw [Ledger.soleBatches_nil, List.append_eq_nil_iff, List.map_eq_nil_iff] at hbatches
  exact ⟨hbatches.1, (List.append_eq_nil_iff.1 hk.order).2⟩

/-- Jobs may be added as long as there are none. -/
theorem InTurn.step {jobs : List J} (hk : InTurn t b jobs k q) (hsole : q.Sole t)
    (hc : Counted q) (hsound : q.Sound) (hb : q.ledger.batchSize = b)
    (hstep : q.step u m = some (r, es))
    (hadd : jobs = [] ∨ es.flatMap Event.addedJobs = []) :
    InTurn t b (jobs ++ es.flatMap Event.addedJobs) (k ++ [⟨u, m, es⟩]) r where
  takers g hg := by
    obtain ⟨o, hs, ht⟩ := turns_of_step hstep
    rw [grabs_append, grabs_singleton, List.mem_append, List.mem_map] at hg
    rcases hg with hg | ⟨batch, hbatch, rfl⟩
    · exact hk.takers g hg
    · by_contra hu
      rw [ht.events, (hsole.of_ne hs hu).1] at hbatch
      cases hbatch
  batches := by
    rcases hadd with rfl | hadd
    · obtain ⟨o, hs, ht⟩ := turns_of_step hstep
      obtain ⟨hgrabs, hnone⟩ := hk.pending_of_nil
      rw [grabs_append, hgrabs, grabs_singleton, ht.events, ht.ledger]
      rcases hs.pending_cases
        with ⟨hpending, hadded, hbatches⟩ | ⟨jobs, _, rfl⟩ | ⟨role, _, hwork, _⟩
      · simp [hpending, hadded, hbatches, hnone]
      · simp [Event.batches, Event.addedJobs, hnone]
      · exact absurd hnone hwork
    · subst hb
      rw [grabs_append, List.map_append, List.append_assoc,
        hsole.batches_step hc hsound hstep hadd, hk.batches,
        hadd, List.append_nil]
  order := hk.order_step hsole hstep

end CheckRounds
