import CheckRounds.Proofs.Delivery
import CheckRounds.Proofs.Pool.Batches
import Mathlib.Algebra.BigOperators.Group.Finset.Basic
/-!
The count of the jobs that are left is exact.

`todo` is raised when jobs are added and lowered when a batch is reported, while a job
leaves `pending` when it is taken. In between it is in a batch that its thread has not
reported. So `todo` is the number of jobs that wait plus the sizes of those batches, in
every state, and no report takes it below zero.
-/

namespace CheckRounds

open Pool

variable {J E : Type} {n t u : Nat} {h : List (Moment J E)} {m : Move J E}
  {es : List (Event J E)} {p q : Pool J} {o : Upshot J E}

theorem total_eq_sum (f : Thread J → Nat) (p : Pool J) :
    total f p.threads = ∑ u ∈ Finset.range p.threads.length, f (p.thread u) := by
  unfold thread
  induction p.threads with
  | nil => rfl
  | cons th ths ih =>
    rw [total, ih, List.length_cons, Finset.sum_range_succ', Nat.add_comm]
    simp

theorem Reached.todo_eq (hr : Reached n h p) :
    p.ledger.todo = p.ledger.pending.length +
      ∑ u ∈ Finset.range p.threads.length, ((unreported u h).map List.length).sum := by
  have hload : ∀ u, ((unreported u h).map List.length).sum = (p.thread u).inFlight := by
    intro u
    rw [hr.map_length_unreported u, Thread.sum_load]
  rw [hr.sound.todo, total_eq_sum]
  simp only [hload]

theorem Reached.unreported_of_length_le (hr : Reached n h p) (hu : p.threads.length ≤ u) :
    unreported u h = [] := by
  rw [hr.unreported_eq_nil_iff u]
  have hnew : p.thread u = {} := by simp [thread, hu]
  rw [hnew]
  rfl

/-! ## Reports and ends of rounds -/

namespace Event

/-- The event belongs to the end of a round: it is drained, its verdict is given, or it
is closed. -/
def endsRound : Event J E → Bool
  | .drained _ => true
  | .completed _ _ => true
  | .returned (.verdict _) => true
  | .closed => true
  | _ => false

end Event

theorem Shift.of_reported {l : Ledger J} {s : Option Nat} {th : Thread J}
    (h : Shift t l s th m o) {tally : Tally} (he : .reported tally ∈ o.events) :
    th.inFlight = tally.executed ∧ o.ledger = l.report tally := by
  cases h with
  | still _ hc | clerical _ _ _ hc => exact absurd (hc _ he) (by simp [Event.clerical])
  | report hd =>
    simp only [List.mem_singleton, Event.reported.injEq] at he
    subst he
    exact ⟨by simp [Thread.inFlight, hd], rfl⟩
  | _ => simp at he

theorem Shift.of_drained {l : Ledger J} {s : Option Nat} {th : Thread J}
    (h : Shift t l s th m o) {v : Bool} (he : .drained v ∈ o.events) :
    l.pending = [] ∧ l.todo = 0 := by
  cases h with
  | still _ hc | clerical _ _ _ hc => exact absurd (hc _ he) (by simp [Event.clerical])
  | drain _ noWork done => exact ⟨noWork, done⟩
  | _ => simp at he

/-- A round is drained when nothing is left; its verdict is given, and its slot is given
back, by a thread whose round is at rest. -/
theorem Shift.of_endsRound {l : Ledger J} {s : Option Nat} {th : Thread J}
    (h : Shift t l s th m o) (hs : th.Sound) {e : Event J E} (he : e ∈ o.events)
    (hends : e.endsRound = true) :
    l.todo = 0 ∨ th.HasSlot ∧ th.AtRest := by
  cases e with
  | drained v => exact .inl (h.of_drained he).2
  | completed jobs v =>
    have hany : o.events.any Event.startsAfresh = true := List.any_eq_true.2 ⟨_, he, rfl⟩
    obtain ⟨hslot, hrest, _⟩ := h.of_startsAfresh hany
    exact .inr ⟨hslot, hrest⟩
  | closed =>
    obtain ⟨hround, hrest, _⟩ := h.of_return hs (.inr he)
    exact .inr ⟨.inl hround, hrest⟩
  | returned r =>
    cases r with
    | verdict v =>
      obtain ⟨hround, hrest, _⟩ := h.of_return hs (.inl ⟨v, he⟩)
      exact .inr ⟨.inl hround, hrest⟩
    | _ => cases hends
  | _ => cases hends

theorem Turns.todo_eq_zero_of_endsRound (hs : Turns p t m q es) (hp : p.Sound)
    {e : Event J E} (he : e ∈ es) (hends : e.endsRound = true) : p.ledger.todo = 0 := by
  obtain ⟨o, hs, ht⟩ := hs
  rw [ht.events] at he
  rcases hs.of_endsRound (hp.threads t) he hends with hzero | ⟨hslot, hrest⟩
  · exact hzero
  · exact (hp.drained ((hp.slot t).1 hslot) hrest).1

theorem Pool.Sound.inFlight_le_todo (hp : p.Sound) (u : Nat) :
    (p.thread u).inFlight ≤ p.ledger.todo := by
  have hle := thread_le_total (p := p) Thread.steady_inFlight.idle u
  have htodo := hp.todo
  omega

theorem Pool.Sound.todo_pos_of_inJob (hp : p.Sound) {role : Role} {x : Execution J}
    (hd : (p.thread u).duty = .looping role (.executing x)) : 1 ≤ p.ledger.todo := by
  have hpos : 0 < x.size := (hp.threads u).stage hd
  have hle := hp.inFlight_le_todo u
  simp only [Thread.inFlight, hd] at hle
  omega

/-- In every state, `todo` is the number of the jobs that wait plus the sizes of the
batches that were taken and not reported. So it is positive while a job runs, and no
step then ends the round; a report lowers it by just the size of its batch; and nothing
is left where a round is opened or drained. -/
theorem Reached.todo_accounted (hr : Reached n h p) :
    p.ledger.todo = p.ledger.pending.length +
      ∑ u ∈ Finset.range p.threads.length, ((unreported u h).map List.length).sum ∧
    (∀ u, p.threads.length ≤ u → unreported u h = []) ∧
    (∀ u role x, (p.thread u).duty = .looping role (.executing x) → x.inJob = true →
      1 ≤ p.ledger.todo ∧
      ∀ t (m : Move J E) q es, p.step t m = some (q, es) →
        ∀ e ∈ es, e.endsRound = false) ∧
    (∀ u role tally, (p.thread u).duty = .looping role (.reporting tally) →
      tally.executed ≤ p.ledger.todo) ∧
    (∀ t (m : Move J E) q es tally, p.step t m = some (q, es) → .reported tally ∈ es →
      q.ledger.todo + tally.executed = p.ledger.todo) ∧
    (∀ u, (p.thread u).duty = .opening .ledger → p.ledger.todo = 0) ∧
    ∀ t (m : Move J E) q es v, p.step t m = some (q, es) → .drained v ∈ es →
      p.ledger.pending = [] ∧ p.ledger.todo = 0 := by
  have hp := hr.sound
  refine ⟨hr.todo_eq, fun u hu => hr.unreported_of_length_le hu, ?_, ?_, ?_, ?_, ?_⟩
  · intro u role x hd _
    have hpos := hp.todo_pos_of_inJob hd
    refine ⟨hpos, fun t m q es hstep e he => ?_⟩
    rw [Bool.eq_false_iff]
    intro hends
    have hzero := (turns_of_step hstep).todo_eq_zero_of_endsRound hp he hends
    omega
  · intro u role tally hd
    have hle := hp.inFlight_le_todo u
    simpa [Thread.inFlight, hd] using hle
  · intro t m q es tally hstep he
    obtain ⟨o, hs, ht⟩ := turns_of_step hstep
    rw [ht.events] at he
    obtain ⟨hin, hl⟩ := hs.of_reported he
    have hle := hp.inFlight_le_todo t
    rw [ht.ledger, hl, Ledger.todo_report]
    omega
  · intro u hd
    have hslot := (hp.slot u).1 (.inr (.inl hd))
    exact (hp.drained hslot (by simp [Thread.AtRest, hd])).1
  · intro t m q es v hstep he
    obtain ⟨o, hs, ht⟩ := turns_of_step hstep
    rw [ht.events] at he
    exact hs.of_drained he

/-- A client starts a worker and adds three jobs. The worker has carried out the first
one and reported it, and runs the second one. -/
def secondJob : List (Nat × Move Nat Unit) :=
  List.flatten [[(0, .request (.start 1))], onward 0 3, [(0, .spawn 1)], onward 0 4,
    [(0, .openRound)], onward 0 4, [(0, .add [5, 6, 7])], onward 0 3, onward 1 4,
    carryOut 1 true, onward 1 5, [(1, .work .proceed)]]

theorem secondJob_accounted :
    Reached 1 (played 1 secondJob).2 (played 1 secondJob).1 ∧
    (played 1 secondJob).1.ledger.pending = [7] ∧
    unreported 1 (played 1 secondJob).2 = [[6]] ∧
    (played 1 secondJob).1.ledger.todo = [7].length +
      ∑ u ∈ Finset.range 2, ((unreported u (played 1 secondJob).2).map List.length).sum ∧
    1 ≤ (played 1 secondJob).1.ledger.todo := by
  have hr : Reached 1 (played 1 secondJob).2 (played 1 secondJob).1 :=
    .of_played (by decide +kernel)
  have hd : ((played 1 secondJob).1.thread 1).duty =
      .looping .worker (.executing { phase := .calling 6, rest := [] }) := rfl
  obtain ⟨htodo, _, hrun, _⟩ := Reached.todo_accounted hr
  exact ⟨hr, rfl, rfl, htodo, (hrun 1 _ _ hd rfl).1⟩

end CheckRounds
