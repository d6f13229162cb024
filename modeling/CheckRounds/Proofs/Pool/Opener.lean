import CheckRounds.Proofs.Pool.Since
/-!
What holds of the thread that has the slot.

What the opener of a round knows changes with its own steps only; the steps of others
are made beside it. While the slot is free any thread is as good as another.
`Run.opener_induct` carries a property of a history and the opener from a pool without
an open round to the present; `Turns.atOpener` is the step of a list that passes through
the hands of the opener.
-/

namespace CheckRounds

open Pool

variable {J E : Type} {h : List (Moment J E)} {p q : Pool J}

/-- What the thread that has the slot holds of a list, of which the others hold
nothing. -/
def Pool.atOpener {α : Type} (f : Thread J → List α) (p : Pool J) : List α :=
  p.slot.elim [] fun t => f (p.thread t)

variable {t : Nat} {m : Move J E} {es : List (Event J E)}

theorem Pool.Sound.atOpener_eq {α : Type} {f : Thread J → List α} (hp : p.Sound)
    (hnone : ¬ (p.thread t).HasSlot → f (p.thread t) = [])
    (hs : p.slot = none ∨ p.slot = some t) :
    p.atOpener f = f (p.thread t) := by
  rcases hs with hs | hs
  · rw [hnone (by simp [hp.slot t, hs]), atOpener, hs]
    rfl
  · rw [atOpener, hs]
    rfl

/-- What the thread that moves takes in and gives out of the list, the opener does, and
nobody else. -/
theorem Turns.atOpener {α : Type} {f : Thread J → List α} {taken given : List α}
    (hs : Turns p t m q es) (hp : p.Sound) (roused : ∀ th, f th.roused = f th)
    (newborn : f { duty := .looping .worker .entering } = f {})
    (hnone : ∀ u, ¬ (p.thread u).HasSlot → f (p.thread u) = [])
    (hnone' : ∀ u, ¬ (q.thread u).HasSlot → f (q.thread u) = [])
    (own : f (p.thread t) ++ taken = given ++ f (q.thread t))
    (beside : ¬ (p.thread t).HasSlot → taken = [] ∧ given = []) :
    p.atOpener f ++ taken = given ++ q.atOpener f := by
  have hq := hp.turn hs
  rcases hs.slot_cases hp with ⟨u, hu, hpu, hqu, hn⟩ | ⟨hpt, hqt⟩
  · obtain ⟨o, hs, ht⟩ := hs
    obtain ⟨rfl, rfl⟩ := beside hn
    rw [hp.atOpener_eq (hnone u) (.inr hpu), hq.atOpener_eq (hnone' u) (.inr hqu),
      ht.same roused newborn hu, List.append_nil, List.nil_append]
  · rw [hp.atOpener_eq (hnone t) hpt, hq.atOpener_eq (hnone' t) hqt]
    exact own

/-- What holds of every thread at the start, is kept by the steps of the thread that it
is about, and by what others do beside it, and passes from thread to thread while no
round is open, holds of the thread that has the slot, and of every thread if the slot is
free. -/
theorem Run.opener_induct {C : Nat → List (Moment J E) → Thread J → Prop} (hv : p.Vacant)
    (start : ∀ t, C t [] (p.thread t)) (roused : ∀ t k th, C t k th.roused ↔ C t k th)
    (newborn : ∀ t k, C t k { duty := .looping .worker .entering } ↔ C t k {})
    (own : ∀ {k x t m o}, Run p k x → C t k (x.thread t) →
      Shift t x.ledger x.slot (x.thread t) m o → C t (k ++ [⟨t, m, o.events⟩]) o.thread)
    (beside : ∀ {k x t u m o}, Run p k x → u ≠ t → C t k (x.thread t) →
      Shift u x.ledger x.slot (x.thread u) m o → ¬ (x.thread u).HasSlot →
      C t (k ++ [⟨u, m, o.events⟩]) (x.thread t))
    (handover : ∀ {k t u} {th th' : Thread J}, C t k th → th.Sound → th.round = none →
      th'.Sound → th'.round = none → C u k th')
    (hr : Run p h q) (t : Nat) (ht : q.slot = none ∨ q.slot = some t) :
    C t h (q.thread t) := by
  induction hr generalizing t with
  | nil => exact start t
  | @snoc q r h u m es before last ih =>
    have hq := Run.sound hv.sound before
    have hturns := turns_of_step last
    have hr := hq.turn hturns
    have hcases := hturns.slot_cases hq
    obtain ⟨o, hs, hturn⟩ := hturns
    rw [hturn.events]
    rcases hcases with ⟨w, hw, hqw, hrw, hn⟩ | ⟨hqu, hru⟩
    · -- The step is made beside the round of `w`.
      obtain rfl : w = t := by simpa [hrw] using ht
      rw [hturn.same_iff (P := C w _) (roused w _) (newborn w _) hw]
      exact beside before (Ne.symm hw) (ih w (.inr hqw)) hs hn
    · have hown := own before (ih u hqu) hs
      by_cases htu : u = t
      · subst htu
        rw [hturn.self]
        exact hown
      · -- The slot is free after the step, so any thread will do.
        have hfree : r.slot = none := by
          rcases ht with ht | ht
          · exact ht
          · rcases hru with hru | hru
            · exact hru
            · exact absurd (Option.some.inj (hru.symm.trans ht)) htu
        rw [← hturn.self] at hown
        exact handover hown (hr.threads u) (hr.round_eq_none hfree u) (hr.threads t)
          (hr.round_eq_none hfree t)

end CheckRounds
