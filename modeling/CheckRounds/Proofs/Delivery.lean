import CheckRounds.Proofs.Pool.Opener
/-!
No job is lost, and none is carried out twice.

The batches that were taken, one after another, and then what waits, are the jobs that
were added, in the order in which they were handed over. Each batch is carried out by
the thread that took it, in its order. When the verdict on a round is given, or the
round is closed, all jobs have ended.
-/

namespace CheckRounds

open Pool

variable {J E : Type} {n t u : Nat} {h : List (Moment J E)} {m : Move J E}
  {es : List (Event J E)} {p q : Pool J} {o : Upshot J E}

/-! ## The order of the jobs -/

def Move.submitted : Move J E → List J
  | .add jobs => jobs
  | _ => []

/-- The jobs that were handed over to be added, in the order of the calls. -/
def jobsSubmitted (h : List (Moment J E)) : List J := h.flatMap fun m => m.move.submitted

theorem Move.submitted_of_calls (h : m.calls = []) : m.submitted = [] := by
  cases m with
  | add jobs => simpa [calls, submitted] using h
  | _ => rfl

def Thread.unadded (th : Thread J) : List J :=
  match th.duty with
  | .adding jobs => jobs
  | _ => []

/-- The jobs that the opener of the round is about to add to the ledger. -/
def Pool.unadded (p : Pool J) : List J :=
  match p.slot with
  | some t => (p.thread t).unadded
  | none => []

theorem Thread.unadded_roused (th : Thread J) : th.roused.unadded = th.unadded :=
  apply_roused (fun th role hd => by simp [unadded, hd]) th

theorem Thread.Sound.unadded_eq_nil {th : Thread J} (h : th.Sound) (hn : ¬ th.HasSlot) :
    th.unadded = [] := by
  unfold Thread.unadded
  split
  · rename_i hd
    simp only [Thread.Sound, hd] at h
    exact absurd h.2.hasSlot hn
  · rfl

/-- What is handed over is added by the same thread, before it hands over more. -/
theorem Shift.submitted {l : Ledger J} {s : Option Nat} {th : Thread J}
    (h : Shift t l s th m o) :
    th.unadded ++ m.submitted = o.events.flatMap Event.addedJobs ++ o.thread.unadded := by
  cases h with
  | still hm hc => simp [Move.submitted_of_calls hm, addedJobs_of_clerical hc]
  | clerical hm _ _ hc =>
    rw [Move.submitted_of_calls hm, addedJobs_of_clerical hc, List.append_nil]
    rfl
  | configure | flag | spawn | retell =>
    simp [Move.submitted, Event.addedJobs, Thread.unadded]
  | alarm =>
    have hsame : (th.roused.withCall (some (.stopping .collecting))).unadded =
        th.unadded :=
      Thread.unadded_roused th
    simp [Move.submitted, Event.addedJobs, hsame]
  | seize hm hd =>
    rcases hd with hd | hd <;> simp [Move.submitted_of_calls hm, Thread.unadded, hd]
  | engage hd _ _ hm =>
    rcases hm with ⟨rfl, rfl⟩ | ⟨u, rfl, rfl⟩ <;>
      simp [Move.submitted, Thread.unadded, hd]
  | @leave role v hd =>
    cases role <;> simp [Move.submitted, Thread.unadded, hd, afterLoop]
  | submit hd | push hd | opened hd | answer hd | conclude hd | reset hd | release hd
  | knock hd | rouseAll hd | rouseOne hd | dismiss hd | enter hd | quit hd | take hd
  | drain hd | sleep hd | stir hd | wake hd | announce hd | work hd | finish hd
  | report hd =>
    simp [Move.submitted, Event.addedJobs, Thread.unadded, hd]

theorem Shift.submitted_eq_nil {l : Ledger J} {s : Option Nat} {th : Thread J}
    (h : Shift t l s th m o) (hn : ¬ th.HasSlot) : m.submitted = [] := by
  cases h with
  | still hm | clerical hm | seize hm => exact Move.submitted_of_calls hm
  | submit _ hr => exact absurd (.inl (by simp [hr])) hn
  | engage _ _ _ hm => rcases hm with ⟨rfl, rfl⟩ | ⟨u, rfl, rfl⟩ <;> rfl
  | _ => rfl

theorem Pool.unadded_eq (p : Pool J) : p.unadded = p.atOpener Thread.unadded := by
  unfold unadded atOpener
  cases p.slot <;> rfl

theorem Pool.Sound.unadded_of_slot (h : p.Sound) (hs : p.slot = none ∨ p.slot = some t) :
    p.unadded = (p.thread t).unadded := by
  rw [unadded_eq]
  exact h.atOpener_eq (h.threads t).unadded_eq_nil hs

theorem Turns.submitted (hs : Turns p t m q es) (hp : p.Sound) :
    p.unadded ++ m.submitted = es.flatMap Event.addedJobs ++ q.unadded := by
  have hq := hp.turn hs
  rw [unadded_eq, unadded_eq]
  refine hs.atOpener hp Thread.unadded_roused rfl (fun u => (hp.threads u).unadded_eq_nil)
    (fun u => (hq.threads u).unadded_eq_nil) ?_ fun hn => ?_
  · obtain ⟨o, hs, ht⟩ := hs
    rw [ht.self, ht.events]
    exact hs.submitted
  · obtain ⟨o, hs, ht⟩ := hs
    rw [ht.events]
    exact ⟨hs.submitted_eq_nil hn, hs.addedJobs (hp.threads t) hn⟩

theorem Run.submitted (hp : p.Sound) (hr : Run p h q) :
    p.unadded ++ jobsSubmitted h = jobsAdded h ++ q.unadded := by
  refine Run.induct
    (C := fun h q => p.unadded ++ jobsSubmitted h = jobsAdded h ++ q.unadded) hp
    (by simp [jobsSubmitted, jobsAdded]) ?_ hr
  intro h p t m q es hp ih ht
  have hstep := ht.submitted hp
  rw [jobsSubmitted, List.flatMap_append, ← jobsSubmitted, ← List.append_assoc, ih]
  simp only [jobsAdded, collect_append, collect_singleton, List.flatMap_singleton]
  rw [List.append_assoc, hstep, List.append_assoc]

theorem Reached.submitted (hr : Reached n h p) :
    jobsSubmitted h = jobsAdded h ++ p.unadded :=
  Run.submitted (.new n) hr

theorem Run.taken_append_pending (hp : p.Sound) (hr : Run p h q) :
    jobsTaken h ++ q.ledger.pending = p.ledger.pending ++ jobsAdded h := by
  refine Run.induct
    (C := fun h q => jobsTaken h ++ q.ledger.pending = p.ledger.pending ++ jobsAdded h) hp
    (by simp [jobsTaken, jobsAdded]) ?_ hr
  intro h p t m q es _ ih ht
  obtain ⟨o, hs, ht⟩ := ht
  have hflow := hs.flow.taken
  simp only [jobsTaken, jobsAdded, collect_append, collect_singleton] at ih ⊢
  rw [← List.append_assoc, ← ih, List.append_assoc, List.append_assoc, ht.events,
    ht.ledger, hflow]

theorem Reached.taken_append_pending (hr : Reached n h p) :
    jobsTaken h ++ p.ledger.pending = jobsAdded h :=
  Run.taken_append_pending (.new n) hr

/-! ## The batches -/

theorem Shift.batch_ne_nil {l : Ledger J} {s : Option Nat} {th : Thread J}
    (h : Shift t l s th m o) {role : Role} {batch : List J}
    (hb : .took role batch ∈ o.events) : batch ≠ [] := by
  cases h with
  | still _ hc | clerical _ _ _ hc => exact absurd (hc _ hb) (by simp [Event.clerical])
  | take _ _ work =>
    simp only [List.mem_singleton, Event.took.injEq] at hb
    rw [hb.2]
    exact Ledger.batch_ne_nil work
  | _ => simp at hb

theorem Reached.batch_ne_nil (hr : Reached n h p) :
    ∀ k ∈ h, ∀ role batch, .took role batch ∈ k.events → batch ≠ [] := by
  refine hr.induct (C := fun h _ => ∀ k ∈ h, ∀ role batch, .took role batch ∈ k.events →
    batch ≠ [])
    (by simp) fun {h p t m q es} _ ih ht k hk role batch hb => ?_
  rcases List.mem_append.1 hk with hk | hk
  · exact ih k hk role batch hb
  · obtain ⟨o, hs, ht⟩ := ht
    rw [List.mem_singleton] at hk
    subst hk
    rw [ht.events] at hb
    exact hs.batch_ne_nil hb

/-- A thread calls the jobs of its batches in their order, and they end in their order. -/
structure Carries (u : Nat) (h : List (Moment J E)) (th : Thread J) : Prop where
  called : jobsTaken (ofThread u h) = jobsCalled (ofThread u h) ++ th.uncalled
  ended : jobsTaken (ofThread u h) = (jobsEnded (ofThread u h)).map Prod.fst ++ th.unended

theorem Reached.carries (hr : Reached n h p) (u : Nat) : Carries u h (p.thread u) := by
  refine hr.induct (C := fun h p => Carries u h (p.thread u)) ⟨rfl, rfl⟩ ?_
  intro h p t m q es _ ih ht
  obtain ⟨o, hs, ht⟩ := ht
  by_cases hu : u = t
  · subst hu
    have hflow := hs.flow
    refine ⟨?_, ?_⟩
    · have hcalled := ih.called
      simp only [jobsTaken, jobsCalled, ofThread_append, ofThread_singleton, if_true,
        collect_append, collect_singleton] at hcalled ⊢
      rw [hcalled, List.append_assoc, ht.events, hflow.called, ht.self, List.append_assoc]
    · have hended := ih.ended
      simp only [jobsTaken, jobsEnded, ofThread_append, ofThread_singleton, if_true,
        collect_append, collect_singleton, List.map_append] at hended ⊢
      rw [hended, List.append_assoc, ht.events, hflow.ended, ht.self, List.append_assoc]
  · have hsame : ofThread u (h ++ [⟨t, m, es⟩]) = ofThread u h := by
      rw [ofThread_append, ofThread_singleton, if_neg (Ne.symm hu), List.append_nil]
    have hcalled : (q.thread u).uncalled = (p.thread u).uncalled :=
      ht.same Thread.uncalled_roused rfl hu
    have hended : (q.thread u).unended = (p.thread u).unended :=
      ht.same Thread.unended_roused rfl hu
    refine ⟨?_, ?_⟩
    · rw [hsame, hcalled]
      exact ih.called
    · rw [hsame, hended]
      exact ih.ended

/-! ## When a round is over -/

/-- Verdicts are given and slots are given back by threads that have a round and are at
rest; the ledger stays as it is. -/
theorem Shift.of_return {l : Ledger J} {s : Option Nat} {th : Thread J}
    (h : Shift t l s th m o) (hs : th.Sound)
    (he : (∃ v, .returned (.verdict v) ∈ o.events) ∨ .closed ∈ o.events) :
    th.round ≠ none ∧ th.AtRest ∧ o.ledger = l := by
  cases h with
  | still _ hc | clerical _ _ _ hc =>
    rcases he with ⟨v, he⟩ | he <;> exact absurd (hc _ he) (by simp [Event.clerical])
  | retell hd hr hv =>
    exact ⟨by simp [hr], by simpa [Thread.AtRest, hd] using ⟨_, _, hr, hv⟩, rfl⟩
  | answer hd hr => exact ⟨by simp [hr], by simp [Thread.AtRest, hd], rfl⟩
  | release hd =>
    simp only [Thread.Sound, hd] at hs
    have hrest : th.AtRest := by simpa [Thread.AtRest, hd] using hs
    obtain ⟨r, v, hr, _⟩ := hs
    exact ⟨by simp [hr], hrest, rfl⟩
  | _ => simp at he

theorem Turns.blank_of_return (hs : Turns p t m q es) (hp : p.Sound)
    (he : (∃ v, .returned (.verdict v) ∈ es) ∨ .closed ∈ es) :
    (p.thread t).round ≠ none ∧ p.Blank ∧ q.Blank := by
  have hq := hp.turn hs
  obtain ⟨o, hs, ht⟩ := hs
  rw [ht.events] at he
  obtain ⟨hround, hrest, hl⟩ := hs.of_return (hp.threads t) he
  have hdrained := hp.drained ((hp.slot t).1 (.inl hround)) hrest
  refine ⟨hround, hp.blank_of_drained hdrained, hq.blank_of_drained ?_⟩
  rw [ht.ledger, hl]
  exact hdrained

/-- No job is lost, doubled or moved out of its place, and no verdict is given on a
round, and no round is closed, before each of its jobs was called once and released
once. -/
theorem Reached.every_job_once (hr : Reached n h p) :
    jobsTaken h ++ p.ledger.pending = jobsAdded h ∧
    jobsSubmitted h = jobsAdded h ++ p.unadded ∧
    (∀ k ∈ h, ∀ role batch, .took role batch ∈ k.events → batch ≠ []) ∧
    (∀ u, Carries u h (p.thread u)) ∧
    (jobsCalled h).Subperm (jobsAdded h) ∧
    ∀ k t m es, h = k ++ [⟨t, m, es⟩] → (∃ v, .returned (.verdict v) ∈ es) ∨
      .closed ∈ es → (jobsCalled h).Perm (jobsAdded h) ∧
      ((jobsEnded h).map Prod.fst).Perm (jobsAdded h) ∧
      (jobsCalled (sinceOpening t k)).Perm (jobsAdded (ofThread t (sinceOpening t k))) ∧
      ((jobsEnded (sinceOpening t k)).map Prod.fst).Perm
        (jobsAdded (ofThread t (sinceOpening t k))) := by
  refine ⟨hr.taken_append_pending, hr.submitted, hr.batch_ne_nil, hr.carries,
    hr.weighed.subperm_called, ?_⟩
  intro k t m es hk he
  have hall := hr.weighed
  subst hk
  obtain ⟨q, hq, ht⟩ := hr.last
  obtain ⟨hround, hblank, hblank'⟩ := ht.blank_of_return hq.sound he
  have hsince := hq.weighed_since begins_opensRound hround
  have hown := hq.addedJobs_since begins_opensRound hround
  refine ⟨hall.perm_called hblank', hall.perm_ended hblank', ?_, ?_⟩
  · rw [sinceOpening, hown]
    exact hsince.perm_called hblank
  · rw [sinceOpening, hown]
    exact hsince.perm_ended hblank

/-! ## A round of two jobs -/

def carryOut (t : Nat) (answer : Bool) : List (Nat × Move Nat Unit) :=
  [(t, .work .proceed), (t, .work (.conclude (.ok answer))), (t, .work (.discard none))]

/-- A client starts a worker and adds two jobs. The worker carries out the first one,
which fails, and the client the second one; all that is left is to give the verdict. -/
def errand : List (Nat × Move Nat Unit) :=
  [(0, .request (.start 1))] ++ onward 0 3 ++ [(0, .spawn 1)] ++ onward 0 4 ++
  [(0, .openRound)] ++ onward 0 4 ++ [(0, .add [5, 6])] ++ onward 0 3 ++
  onward 1 4 ++ carryOut 1 false ++ onward 1 3 ++
  [(0, .wait)] ++ onward 0 4 ++ carryOut 0 true ++ onward 0 8

def errandRun : Pool Nat × List (Moment Nat Unit) := played 1 errand

theorem reached_errandRun : Reached 1 errandRun.2 errandRun.1 :=
  .of_played (by decide +kernel)

theorem errand_calls_each_job : ∃ q, Reached 1 (errandRun.2 ++
      [⟨0, .advance, [.completed 2 false, .returned (.verdict false)]⟩]) q ∧
    jobsAdded (ofThread 0 (sinceOpening 0 errandRun.2)) = [5, 6] ∧
    (jobsCalled (sinceOpening 0 errandRun.2)).Perm [5, 6] ∧
    ((jobsEnded (sinceOpening 0 errandRun.2)).map Prod.fst).Perm [5, 6] := by
  have hr : Reached 1 (errandRun.2 ++
      [⟨0, .advance, [.completed 2 false, .returned (.verdict false)]⟩]) _ :=
    Run.snoc reached_errandRun rfl
  have hadded : jobsAdded (ofThread 0 (sinceOpening 0 errandRun.2)) = [5, 6] := rfl
  obtain ⟨_, _, _, _, _, hover⟩ := Reached.every_job_once hr
  obtain ⟨_, _, hcalled, hended⟩ := hover _ _ _ _ rfl (.inl ⟨false, by simp⟩)
  rw [hadded] at hcalled hended
  exact ⟨_, hr, hadded, hcalled, hended⟩

end CheckRounds
