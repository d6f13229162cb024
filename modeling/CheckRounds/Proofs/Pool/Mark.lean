import CheckRounds.Proofs.Pool.StepRules
/-!
A slot that a crashing thread gave back works like any other.

Such a slot carries a mark. No rule looks at it: with the mark set or cleared, each step
is possible just as before, shows the same and leads to the same pool but for the mark
(`Pool.step_marked`). So every run is a run of the pool with the other mark too.
-/

namespace CheckRounds

open Pool

variable {J E : Type} {t : Nat} {m : Move J E} {es : List (Event J E)} {p q : Pool J}

namespace Pool

/-- The same pool, its slot marked as given back by a crashing thread or not. -/
def marked (p : Pool J) (b : Bool) : Pool J := { p with poisoned := b }

end Pool

/-- With the other mark each rule leads to the same state, by the same rule. -/
theorem CallStep.marked {c : Call} (h : CallStep p t c m q es) (b : Bool) :
    CallStep (p.marked b) t c m (q.marked b) es := by
  cases h <;> constructor <;> assumption

/-- Only the release of a slot says anything of the mark, and it only ever sets it. -/
theorem DutyStep.marked {d : Duty J} (h : DutyStep p t d m q es) (b : Bool) :
    ∃ b', DutyStep (p.marked b) t d m (q.marked b') es := by
  cases h with
  | @release u => exact ⟨b || u, .release⟩
  | _ =>
    refine ⟨b, ?_⟩
    constructor <;> assumption

theorem SoloStep.marked (h : SoloStep p t m q es) (b : Bool) :
    ∃ b', SoloStep (p.marked b) t m (q.marked b') es := by
  cases h with
  | begins r liberty inUse alone => exact ⟨b, .begins r liberty inUse alone⟩
  | goesOn other duty step =>
    obtain ⟨b', hstep⟩ := step.marked b
    exact ⟨b', .goesOn other duty hstep⟩

namespace Pool

theorem step_marked (hstep : p.step t m = some (q, es)) (b : Bool) :
    ∃ b', (p.marked b).step t m = some (q.marked b', es) := by
  cases hc : (p.thread t).call with
  | none =>
    have hmarked : ((p.marked b).thread t).call = none := hc
    obtain ⟨b', hsolo⟩ := ((step_iff_soloStep hc).1 hstep).marked b
    exact ⟨b', (step_iff_soloStep hmarked).2 hsolo⟩
  | some c =>
    have hmarked : ((p.marked b).thread t).call = some c := hc
    have hcall := ((step_iff_callStep hc).1 hstep).marked b
    exact ⟨b, (step_iff_callStep hmarked).2 hcall⟩

end Pool

theorem Run.marked {k : List (Moment J E)} (hr : Run p k q) (b : Bool) :
    ∃ b', Run (p.marked b) k (q.marked b') := by
  induction hr with
  | nil => exact ⟨b, .nil _⟩
  | snoc _ last ih =>
    obtain ⟨b', hbefore⟩ := ih
    obtain ⟨b'', hlast⟩ := step_marked last b'
    exact ⟨b'', .snoc hbefore hlast⟩

/-- A mark on the slot neither adds runs nor takes runs away. -/
theorem Pool.run_marked_iff (p q : Pool J) (k : List (Moment J E)) (b : Bool) :
    (∃ c, Run (p.marked b) k (q.marked c)) ↔ ∃ c, Run p k (q.marked c) := by
  constructor
  · rintro ⟨c, hr⟩
    exact hr.marked p.poisoned
  · rintro ⟨c, hr⟩
    exact hr.marked b

end CheckRounds
