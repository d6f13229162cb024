import CheckRounds.Pool.Step
/-!
Runs of a pool: any threads, any moves, in any order.

A `Run` records who moved, how, and what could be seen. Every statement about all
schedules is a statement about all runs from a new pool. `Pool.play` carries out a given
list of moves, so a single run can be computed.
-/

namespace CheckRounds

structure Moment (J E : Type) where
  thread : Nat
  move : Move J E
  events : List (Event J E)

/-- The pool can get from the first state to the second one with this history. -/
inductive Run {J E : Type} : Pool J → List (Moment J E) → Pool J → Prop where
  | nil (p : Pool J) : Run p [] p
  | snoc {p q r : Pool J} {h : List (Moment J E)} {t : Nat} {m : Move J E}
      {events : List (Event J E)} (before : Run p h q)
      (last : q.step t m = some (r, events)) :
      Run p (h ++ [⟨t, m, events⟩]) r

/-- A state of a pool that was created with that batch size, and the history that led to
it. -/
def Reached {J E : Type} (batchSize : Nat) (h : List (Moment J E)) (p : Pool J) : Prop :=
  Run (Pool.new batchSize) h p

variable {J E : Type}

/-- The events of a history in their order, each with the thread it comes from. -/
def events (h : List (Moment J E)) : List (Nat × Event J E) :=
  h.flatMap fun m => m.events.map fun e => (m.thread, e)

@[simp] theorem events_nil : events ([] : List (Moment J E)) = [] := rfl

@[simp] theorem events_append (h k : List (Moment J E)) :
    events (h ++ k) = events h ++ events k := by
  simp [events]

namespace Pool

def play (p : Pool J) : List (Nat × Move J E) → Option (Pool J × List (Moment J E))
  | [] => some (p, [])
  | (t, m) :: rest =>
    match p.step t m with
    | none => none
    | some (q, es) =>
      match q.play rest with
      | none => none
      | some (r, h) => some (r, ⟨t, m, es⟩ :: h)

/-- Where moves lead from a new pool, and the history on the way; nowhere if one of them
is not possible. -/
def played (batchSize : Nat) (ms : List (Nat × Move J E)) : Pool J × List (Moment J E) :=
  ((Pool.new batchSize).play ms).getD (Pool.new batchSize, [])

def onward (t k : Nat) : List (Nat × Move J E) := List.replicate k (t, .advance)

end Pool

namespace Run

theorem cons {p q r : Pool J} {h : List (Moment J E)} {t : Nat} {m : Move J E}
    {es : List (Event J E)} (first : p.step t m = some (q, es)) (after : Run q h r) :
    Run p (⟨t, m, es⟩ :: h) r := by
  induction after with
  | nil => exact snoc (nil p) first
  | snoc _ last ih => exact snoc ih last

theorem trans {p q r : Pool J} {h k : List (Moment J E)} (a : Run p h q) (b : Run q k r) :
    Run p (h ++ k) r := by
  induction b with
  | nil => simpa using a
  | snoc _ last ih => rw [← List.append_assoc]; exact snoc ih last

theorem of_concat {p r : Pool J} {h : List (Moment J E)} {t : Nat} {m : Move J E}
    {es : List (Event J E)} (hr : Run p (h ++ [⟨t, m, es⟩]) r) :
    ∃ q, Run p h q ∧ q.step t m = some (r, es) := by
  generalize hk : h ++ [⟨t, m, es⟩] = k at hr
  cases hr with
  | nil => simp at hk
  | snoc before last =>
    obtain ⟨rfl, hmom⟩ := List.append_inj' hk rfl
    cases hmom
    exact ⟨_, before, last⟩

/-- A run passes through a state at each point of its history. -/
theorem of_append {p r : Pool J} {h k : List (Moment J E)} (hr : Run p (h ++ k) r) :
    ∃ q, Run p h q ∧ Run q k r := by
  generalize hl : h ++ k = l at hr
  induction hr generalizing k with
  | nil =>
    obtain ⟨rfl, rfl⟩ := List.append_eq_nil_iff.1 hl
    exact ⟨p, nil p, nil p⟩
  | @snoc q r l t m es before last ih =>
    rcases List.eq_nil_or_concat k with rfl | ⟨k, m', rfl⟩
    · rw [List.append_nil] at hl
      subst hl
      exact ⟨r, snoc before last, nil r⟩
    · rw [List.concat_eq_append, ← List.append_assoc] at hl
      obtain ⟨hk, hmom⟩ := List.append_inj' hl rfl
      cases hmom
      obtain ⟨q', hfirst, hsecond⟩ := ih hk
      exact ⟨q', hfirst, by simpa using snoc hsecond last⟩

theorem of_play {p r : Pool J} {ms : List (Nat × Move J E)} {h : List (Moment J E)}
    (hp : p.play ms = some (r, h)) : Run p h r := by
  induction ms generalizing p h with
  | nil =>
    simp only [Pool.play, Option.some.injEq, Prod.mk.injEq] at hp
    obtain ⟨rfl, rfl⟩ := hp
    exact nil p
  | cons tm rest ih =>
    obtain ⟨t, m⟩ := tm
    simp only [Pool.play] at hp
    split at hp
    · cases hp
    · rename_i q es hs
      split at hp
      · cases hp
      · rename_i r' h' hq
        cases hp
        exact cons hs (ih hq)

/-- Moves that are all possible lead somewhere, whatever stands in for the case that one
is not. -/
theorem of_played {p : Pool J} {ms : List (Nat × Move J E)}
    (hp : (p.play ms).isSome = true) (d : Pool J × List (Moment J E)) :
    Run p ((p.play ms).getD d).2 ((p.play ms).getD d).1 := by
  obtain ⟨r, hr⟩ := Option.isSome_iff_exists.1 hp
  rw [hr]
  exact of_play hr

end Run

theorem Reached.of_played {n : Nat} {ms : List (Nat × Move J E)}
    (hp : ((Pool.new n).play ms).isSome = true) :
    Reached n (Pool.played n ms).2 (Pool.played n ms).1 := Run.of_played hp _

end CheckRounds
