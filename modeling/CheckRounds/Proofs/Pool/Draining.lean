import CheckRounds.Proofs.Pool.Leaving
import CheckRounds.Proofs.Pool.Sole
/-!
How a thread that is alone in the work loop comes to the end of the jobs.

Each batch that it takes has fewer steps left than the jobs had while they waited, so
there is a rank that its own steps lower and that nobody raises while no jobs are added.
Under a fair schedule, and if the code of the jobs terminates, the thread therefore
cannot find work for ever (`Course.Fair.not_toils`).
-/

namespace CheckRounds

open Pool

variable {J E : Type} {n t i j : Nat} {h : List (Moment J E)} {c : Course J E}
  {role : Role}

/-- A bound for the steps that `t` takes until it has carried out its batch and all that
waits, besides those in the code of the jobs: a job and a batch take a few steps
each. -/
def Pool.toDrain (t : Nat) (p : Pool J) : Nat :=
  8 * p.ledger.pending.length + (p.thread t).remaining

namespace Course

/-- The code of a job that runs on `t` takes a step. -/
def CodeMoves (c : Course J E) (t i : Nat) : Prop :=
  c.Moves t i ∧ ((c.state i).thread t).inJob = true ∧ ((c.state i).thread t).call = none

/-- The code of each job that runs on `t` always takes its next step, and takes finitely
many. -/
structure CodeEnds (c : Course J E) (t : Nat) : Prop where
  goOn : ∀ i, ((c.state i).thread t).inJob = true → ((c.state i).thread t).call = none →
    ∃ j, i ≤ j ∧ c.CodeMoves t j
  finite : ∀ i, (∀ j, i ≤ j → ((c.state j).thread t).inJob = true) →
    ∃ j, i ≤ j ∧ ∀ k, j ≤ k → ¬ c.CodeMoves t k

/-- In a course that comes to rest outside of its jobs, in which the thread goes on with
them at once. -/
theorem codeEnds_of_rest (hrest : ∀ k, i ≤ k → c.act k = none)
    (hend : ((c.state i).thread t).inJob = false)
    (hnow : ∀ k < i, ((c.state k).thread t).inJob = true →
      ((c.state k).thread t).call = none → c.Moves t k) :
    c.CodeEnds t where
  goOn k hjob hcall := by
    by_cases hk : k < i
    · exact ⟨k, Nat.le_refl k, hnow k hk hjob hcall, hjob, hcall⟩
    · rw [state_of_rest hrest (Nat.le_of_not_lt hk), hend] at hjob
      cases hjob
  finite k hjob := by
    have hlate := hjob (max i k) (Nat.le_max_right i k)
    rw [state_of_rest hrest (Nat.le_max_left i k), hend] at hlate
    cases hlate

/-- From time `i` on `t` is in the work loop, alone and awake. When it looks for work it
finds some, or finds that the round is drained; its calls return, and nobody adds
jobs. -/
structure Toils (c : Course J E) (t : Nat) (role : Role) (i : Nat) : Prop where
  sole : ∀ j, i ≤ j → (c.state j).Sole t
  awake : ∀ j, i ≤ j → ∃ stage, ((c.state j).thread t).duty = .looping role stage ∧
    stage ≠ .asleep
  finds : ∀ j, i ≤ j → ((c.state j).thread t).duty = .looping role .taking →
    (c.state j).ledger.pending = [] → role ≠ .worker ∧ (c.state j).ledger.todo = 0
  calls : ∀ j, i ≤ j → ∃ k, j ≤ k ∧ ((c.state k).thread t).call = none
  closed : ∀ j u m (es : List (Event J E)), i ≤ j → c.act j = some (u, m) →
    (c.state j).step u m = some (c.state (j + 1), es) → es.flatMap Event.addedJobs = []

theorem Toils.pursuit (ht : c.Toils t role i) (hr : Reached n h (c.state 0))
    (hcode : c.CodeEnds t) :
    c.Pursuit t i (fun _ => True) (Pool.toDrain t) Thread.inJob where
  own := by
    intro j m es hij _ _ hstep
    obtain ⟨stage, hd, _⟩ := ht.awake j hij
    cases loopStep_of_step (c.orderly hr j) hd hstep with
    | nearer less waiting =>
      refine .inl ?_
      rw [toDrain, toDrain, waiting]
      exact Nat.add_lt_add_left less _
    | takes looks _ work waiting begins =>
      refine .inl ?_
      have hbatch := List.length_pos_iff.2 (Ledger.batch_ne_nil work)
      have hlength := congrArg List.length (c.state j).ledger.batch_append_pending_take
      rw [List.length_append] at hlength
      rw [toDrain, toDrain, waiting, remaining_of_looping begins,
        remaining_of_looping looks]
      simp only [LoopStage.remaining, Execution.remaining, Execution.start]
      omega
    | sleeps looks _ noWork undone =>
      obtain ⟨hrole, htodo⟩ := ht.finds j hij looks noWork
      exact absurd htodo (undone hrole)
    | takesLedger grip => exact .inr ⟨by rw [grip.after]; exact Nat.le_refl _, .inl grip⟩
    | inJob runs same waiting =>
      refine .inr ⟨Nat.le_of_eq ?_, .inr runs⟩
      rw [toDrain, toDrain, waiting, Thread.remaining_of_duty same]
  others := by
    intro j u m es hij hu _ _ hact hstep
    obtain ⟨stage, hd, hawake⟩ := ht.awake j hij
    obtain ⟨o, hs, hturn⟩ := turns_of_step hstep
    have hsame : (c.state (j + 1)).thread t = (c.state j).thread t := by
      refine hturn.stays (Ne.symm hu) (Thread.isAsleep_of_looping hd hawake)
        fun hnew => ?_
      rw [hnew] at hd
      cases hd
    have hadded := ht.closed j u m es hij hact hstep
    have htaken := hs.flow.taken
    rw [((ht.sole j hij).of_ne hs hu).2.1, ← hturn.events, hadded, ← hturn.ledger,
      List.append_nil, List.nil_append] at htaken
    exact ⟨hsame, Nat.le_of_eq (by rw [toDrain, toDrain, hsame, htaken])⟩
  need := by
    intro j hij _ hjob
    obtain ⟨stage, hd, hawake⟩ := ht.awake j hij
    exact (c.orderly hr j).need_of_awake hd hawake hjob
  idle := fun _ j hij =>
    leaves_code (fun j _ => hcode.goOn j) (fun j _ => hcode.finite j)
      (fun j hij _ => ht.calls j hij) hij

/-- Under a fair schedule there is an end to it. -/
theorem Fair.not_toils (hf : c.Fair) (hr : Reached n h (c.state 0))
    (hcode : c.CodeEnds t) :
    ¬ c.Toils t role i := by
  intro ht
  obtain ⟨j, _, _, hleft, _⟩ := hf.pursues hr (ht.pursuit hr hcode) trivial
  exact hleft trivial

end Course

end CheckRounds
