import CheckRounds.Proofs.Attendance
import CheckRounds.Proofs.Delivery
import CheckRounds.Proofs.Pool.Shares
/-!
Nobody takes more than half of what waits.

The size of a batch is a quotient by a number that the thread itself is part of: it has
entered the loop and is awake, so the divisor is at least two, however threads come, go
and sleep meanwhile. The cap is never zero, since a batch size of zero is taken as one
wherever it is set.
-/

namespace CheckRounds

open Pool

variable {J E : Type} {n t : Nat} {h : List (Moment J E)} {m : Move J E}
  {es : List (Event J E)} {p q : Pool J} {o : Upshot J E} {role : Role} {batch : List J}

/-! ## The cap -/

theorem Shift.one_le_batchSize {l : Ledger J} {s : Option Nat} {th : Thread J}
    (h : Shift t l s th m o) (hb : 1 ≤ l.batchSize) : 1 ≤ o.ledger.batchSize := by
  cases h with
  | configure => exact Ledger.one_le_usableBatchSize _
  | _ => exact hb

theorem Reached.one_le_batchSize (hr : Reached n h p) : 1 ≤ p.ledger.batchSize := by
  refine hr.induct (C := fun _ p => 1 ≤ p.ledger.batchSize)
    (Ledger.one_le_usableBatchSize n) ?_
  rintro _ p t m q es _ ih ⟨o, hs, ht⟩
  rw [ht.ledger]
  exact hs.one_le_batchSize ih

/-! ## One batch -/

/-- What a step leads to that takes this batch: the batch is the front of what waited,
is not empty, and holds at most half of it, or one job. -/
structure Moderate (p q : Pool J) (batch : List J) : Prop where
  found : p.ledger.pending ≠ []
  within : p.ledger.portion ≤ p.ledger.pending.length
  front : batch = p.ledger.pending.take p.ledger.portion
  rest : q.ledger.pending = p.ledger.pending.drop p.ledger.portion
  nonempty : 1 ≤ batch.length
  half : batch.length ≤ max 1 (min p.ledger.batchSize (p.ledger.pending.length / 2))
  emptied : q.ledger.pending = [] ↔ p.ledger.pending.length = 1

theorem Shift.found_of_took {l : Ledger J} {s : Option Nat} {th : Thread J}
    (h : Shift t l s th m o) (he : .took role batch ∈ o.events) : l.pending ≠ [] := by
  cases h with
  | still _ hc | clerical _ _ _ hc => exact absurd (hc _ he) (by simp [Event.clerical])
  | take _ _ work => exact work
  | _ => simp at he

/-- Who takes a batch takes part, so it is among those that are counted. -/
theorem Counted.moderate (hc : Counted p) (hs : Turns p t m q es)
    (he : .took role batch ∈ es) :
    Moderate p q batch := by
  obtain ⟨o, hs, ht⟩ := hs
  rw [ht.events] at he
  obtain ⟨hd, _, rfl, hledger⟩ := hs.of_took he
  have hfound := hs.found_of_took he
  have hpos : 0 < p.ledger.pending.length := List.length_pos_iff.2 hfound
  have hcounted : 1 ≤ p.ledger.participants := by
    have hlt := hc.idle_lt (Thread.participates_of_duty hd) (Thread.sleeps_of_duty hd)
    omega
  have hrest : q.ledger.pending = p.ledger.pending.drop p.ledger.portion := by
    rw [ht.ledger, hledger]; rfl
  refine ⟨hfound, p.ledger.portion_le, rfl, hrest, ?_, ?_, ?_⟩
  · rw [Ledger.length_batch]
    exact Ledger.one_le_share _ _ _ hpos
  · rw [Ledger.length_batch]
    exact Ledger.share_le_half _ _ hpos hcounted
  · rw [hrest, List.drop_eq_nil_iff]
    have hall := Ledger.share_eq_self_iff p.ledger.batchSize p.ledger.idle hpos hcounted
    have hle := p.ledger.portion_le
    rw [← hall]
    exact ⟨Nat.le_antisymm hle, fun heq => Nat.le_of_eq heq.symm⟩

/-- A step that takes nothing only adds to what waits. -/
theorem Turns.pending_of_none_taken (hs : Turns p t m q es)
    (he : ∀ role batch, .took role batch ∉ es) :
    p.ledger.pending ++ es.flatMap Event.addedJobs = q.ledger.pending := by
  obtain ⟨o, hs, ht⟩ := hs
  have htaken := hs.flow.taken
  have hnone : es.flatMap Event.takenJobs = [] :=
    List.flatMap_eq_nil_iff.2 fun e hmem => by
    cases e with
    | took role batch => exact absurd hmem (he role batch)
    | _ => rfl
  rw [← ht.events, hnone, ← ht.ledger] at htaken
  exact htaken

/-- Who looks for work with the ledger at hand and finds some takes it, unless it is a
worker that has to leave. -/
theorem Pool.takes_of_pending (hc : (p.thread t).call = none)
    (hd : (p.thread t).duty = .looping role .taking) (hlock : p.ledgerLock = some t)
    (hstays : role = .worker → p.ledger.shuttingDown = false)
    (hwork : p.ledger.pending ≠ []) :
    ∃ q, p.step t (.advance : Move J E) = some (q, [.took role p.ledger.batch]) :=
  ⟨_, (DutyStep.take hlock hstays hwork).step hc hd⟩

/-! ## Every batch -/

/-- In every state the batch size is at least one. Each batch that is taken is the front
of what waits, holds at least one job, and at most one or half of what waits and the
batch size; so only the last job leaves nothing behind. Each look that finds jobs takes
such a batch, and no other step takes anything away from what waits. -/
theorem Reached.batches_moderate (hr : Reached n h p) :
    1 ≤ p.ledger.batchSize ∧
    (∀ t (m : Move J E) q es role batch, p.step t m = some (q, es) →
      .took role batch ∈ es → Moderate p q batch) ∧
    (∀ t role, (p.thread t).call = none → (p.thread t).duty = .looping role .taking →
      p.ledgerLock = some t → (role = .worker → p.ledger.shuttingDown = false) →
      p.ledger.pending ≠ [] →
      ∃ q batch, p.step t (.advance : Move J E) = some (q, [.took role batch]) ∧
        Moderate p q batch) ∧
    ∀ t (m : Move J E) q es, p.step t m = some (q, es) →
      (∀ role batch, .took role batch ∉ es) → p.ledger.pending <+: q.ledger.pending := by
  refine ⟨hr.one_le_batchSize, ?_, ?_, ?_⟩
  · intro t m q es role batch hstep he
    exact hr.counted.moderate (turns_of_step hstep) he
  · intro t role hc hd hlock hstays hwork
    obtain ⟨q, hstep⟩ := takes_of_pending (E := E) hc hd hlock hstays hwork
    exact ⟨q, _, hstep, hr.counted.moderate (turns_of_step hstep) List.mem_cons_self⟩
  · intro t m q es hstep he
    exact ⟨_, (turns_of_step hstep).pending_of_none_taken he⟩

/-- The batch size is set to zero and back to four, and then the opener of a round of
seven jobs waits for it alone, and has the ledger. -/
def aboutToTake : List (Nat × Move Nat Unit) :=
  List.flatten [[(0, .request (.configure 0))], onward 0 2,
    [(0, .request (.configure 4))], onward 0 2,
    [(0, .openRound)], onward 0 4, [(0, .add [1, 2, 3, 4, 5, 6, 7])], onward 0 3,
    [(0, .wait)], onward 0 3]

def aboutToTakeRun : Pool Nat × List (Moment Nat Unit) := played 0 aboutToTake

theorem aboutToTake_moderate :
    Reached 0 aboutToTakeRun.2 aboutToTakeRun.1 ∧ 1 ≤ aboutToTakeRun.1.ledger.batchSize ∧
    aboutToTakeRun.1.ledger.pending = [1, 2, 3, 4, 5, 6, 7] ∧
    ∃ q, aboutToTakeRun.1.step 0 (.advance : Move Nat Unit) =
      some (q, [.took (.owner .waiting) [1, 2, 3]]) ∧
      Moderate aboutToTakeRun.1 q [1, 2, 3] := by
  have hr : Reached 0 aboutToTakeRun.2 aboutToTakeRun.1 := .of_played (by decide +kernel)
  obtain ⟨hcap, htakes, _⟩ := Reached.batches_moderate hr
  have hstep : aboutToTakeRun.1.step 0 (.advance : Move Nat Unit) =
      some (_, [.took (.owner .waiting) [1, 2, 3]]) := rfl
  exact ⟨hr, hcap, rfl, _, hstep, htakes 0 .advance _ _ _ _ hstep List.mem_cons_self⟩

end CheckRounds
