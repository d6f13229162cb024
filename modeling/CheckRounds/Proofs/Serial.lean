import CheckRounds.Proofs.Accounting
import CheckRounds.Proofs.Pool.Mark
/-!
The rounds on one pool come one after another.

At most one thread has a round open, and a history shows which one: the thread that
opened a round last, unless it has closed it (`opener`). When a round is opened, nothing
of the rounds before it is under way, so all their jobs have been called, released and
reported before a job of the new round is added.
-/

namespace CheckRounds

open Pool

variable {J E : Type} {n t u : Nat} {h k : List (Moment J E)} {m : Move J E}
  {es : List (Event J E)} {p q : Pool J} {o : Upshot J E}

/-! ## Who has a round open -/

/-- The thread with an open round after this event of thread `t`. -/
def Event.openerAfter (t : Nat) (before : Option Nat) : Event J E → Option Nat
  | .opened => some t
  | .closed => none
  | _ => before

/-- The thread that has a round open after this history. -/
def opener (h : List (Moment J E)) : Option Nat :=
  (events h).foldl (fun before e => e.2.openerAfter e.1 before) none

theorem opener_concat (h : List (Moment J E)) (t : Nat) (m : Move J E)
    (es : List (Event J E)) :
    opener (h ++ [⟨t, m, es⟩]) = es.foldl (Event.openerAfter t) (opener h) := by
  simp [opener, events, List.foldl_append, List.foldl_map]

theorem foldl_openerAfter_of_clerical (t : Nat) (before : Option Nat)
    (h : ∀ e ∈ es, e.clerical = true) :
    es.foldl (Event.openerAfter t) before = before := by
  induction es with
  | nil => rfl
  | cons e es ih =>
    have he : e.openerAfter t before = before := by
      have hc := h e (by simp)
      cases e with
      | opened | closed => cases hc
      | _ => rfl
    rw [List.foldl_cons, he]
    exact ih fun e he => h e (by simp [he])

/-- What a step does to the round of the thread that moves, and what it shows of that. -/
theorem Shift.opener {l : Ledger J} {s : Option Nat} {th : Thread J}
    (h : Shift t l s th m o) :
    ((∀ before, o.events.foldl (Event.openerAfter t) before = before) ∧
      (o.thread.round ≠ none ↔ th.round ≠ none)) ∨
    (o.events = [.opened] ∧ th.duty = .opening .logging ∧ o.thread.round ≠ none) ∨
    (o.events = [.closed] ∧ (∃ u, th.duty = .releasing u) ∧ o.thread.round = none) := by
  cases h with
  | still _ hc => exact .inl ⟨fun _ => foldl_openerAfter_of_clerical t _ hc, Iff.rfl⟩
  | clerical _ _ _ hc =>
    exact .inl ⟨fun _ => foldl_openerAfter_of_clerical t _ hc, Iff.rfl⟩
  | alarm => exact .inl ⟨fun _ => rfl, by simp⟩
  | opened hd => exact .inr (.inl ⟨rfl, hd, by simp⟩)
  | release hd => exact .inr (.inr ⟨rfl, ⟨_, hd⟩, rfl⟩)
  | submit _ hr | answer _ hr | conclude _ hr => exact .inl ⟨fun _ => rfl, by simp [hr]⟩
  | _ => exact .inl ⟨fun _ => rfl, Iff.rfl⟩

def Opened (h : List (Moment J E)) (p : Pool J) : Prop :=
  ∀ u, CheckRounds.opener h = some u ↔ (p.thread u).round ≠ none

theorem Pool.Sound.round_eq_none_of_hasSlot (hp : p.Sound) (ht : (p.thread t).HasSlot)
    (hu : u ≠ t) :
    (p.thread u).round = none := by
  by_contra hround
  exact hu (hp.eq_of_hasSlot ((hp.slot t).1 ht) (.inl hround))

theorem Opened.turn (ho : Opened h p) (hp : p.Sound) (hs : Turns p t m q es) :
    Opened (h ++ [⟨t, m, es⟩]) q := by
  obtain ⟨o, hs, ht⟩ := hs
  have hother : ∀ u, u ≠ t → (q.thread u).round = (p.thread u).round :=
    fun u hu => ht.same Thread.round_roused rfl hu
  intro u
  rw [opener_concat, ht.events]
  rcases hs.opener with ⟨hkeep, hround⟩ | ⟨hes, hd, hround⟩ | ⟨hes, ⟨w, hd⟩, hround⟩
  · rw [hkeep, ho u]
    by_cases hu : u = t
    · rw [hu, ht.self]
      exact hround.symm
    · rw [hother u hu]
  · have hslot : (p.thread t).HasSlot := .inr (.inr hd)
    by_cases hu : u = t
    · subst hu
      simpa [hes, Event.openerAfter, ht.self] using hround
    · have hnone := hp.round_eq_none_of_hasSlot hslot hu
      simp [hes, Event.openerAfter, hother u hu, hnone, Ne.symm hu]
  · have hslot : (p.thread t).HasSlot := by
      have hs := hp.threads t
      simp only [Thread.Sound, hd] at hs
      exact hs.hasSlot
    by_cases hu : u = t
    · subst hu
      simp [hes, Event.openerAfter, ht.self, hround]
    · have hnone := hp.round_eq_none_of_hasSlot hslot hu
      simp [hes, Event.openerAfter, hother u hu, hnone]

theorem Reached.opened (hr : Reached n h p) : Opened h p :=
  hr.induct (fun u => by simp [opener, Pool.new, thread]) fun hp ho ht => ho.turn hp ht

theorem Opened.opener_eq_none (ho : Opened h p) (hnone : ∀ u, (p.thread u).round = none) :
    CheckRounds.opener h = none := by
  cases hw : CheckRounds.opener h with
  | none => rfl
  | some u => exact absurd (hnone u) ((ho u).1 hw)

theorem Shift.of_opened {l : Ledger J} {s : Option Nat} {th : Thread J}
    (h : Shift t l s th m o) (he : .opened ∈ o.events) : th.duty = .opening .logging := by
  cases h with
  | still _ hc | clerical _ _ _ hc => exact absurd (hc _ he) (by simp [Event.clerical])
  | opened hd => exact hd
  | _ => simp at he

theorem Shift.of_added {l : Ledger J} {s : Option Nat} {th : Thread J}
    (h : Shift t l s th m o) (hs : th.Sound) {jobs : List J}
    (he : .added jobs ∈ o.events) : th.round ≠ none := by
  cases h with
  | still _ hc | clerical _ _ _ hc => exact absurd (hc _ he) (by simp [Event.clerical])
  | push hd =>
    simp only [Thread.Sound, hd] at hs
    obtain ⟨_, r, hr, _⟩ := hs
    simp [hr]
  | _ => simp at he

/-- A round is opened only when none is open, and only the thread that has it open adds
to it and closes it. -/
theorem Reached.opener_of_event (hr : Reached n (h ++ [⟨t, m, es⟩]) q) :
    (.opened ∈ es → opener h = none) ∧ (.closed ∈ es → opener h = some t) ∧
      ∀ jobs, .added jobs ∈ es → opener h = some t := by
  obtain ⟨p, hp, o, hs, ht⟩ := hr.last
  have ho := hp.opened
  have hsound := hp.sound
  rw [ht.events]
  refine ⟨fun he => ?_, fun he => ?_, fun jobs he => ?_⟩
  · have hd := hs.of_opened he
    refine ho.opener_eq_none fun u => ?_
    by_cases hu : u = t
    · have hself := hsound.threads t
      simp only [Thread.Sound, hd] at hself
      rw [hu, hself]
    · exact hsound.round_eq_none_of_hasSlot (.inr (.inr hd)) hu
  · exact (ho t).2 (hs.of_return (hsound.threads t) (.inr he)).1
  · exact (ho t).2 (hs.of_added (hsound.threads t) he)

/-! ## Trying to open a round -/

/-- While a job of the pool runs, somebody has the slot: else nothing would be left of
any round. -/
theorem Pool.Sound.slot_ne_none_of_inJob (hp : p.Sound) {role : Role} {x : Execution J}
    (hd : (p.thread t).duty = .looping role (.executing x)) : p.slot ≠ none := by
  intro hfree
  have hzero : p.ledger.todo = 0 := (hp.rest fun u hu => by simp [hfree] at hu).1
  have hpos := hp.todo_pos_of_inJob hd
  omega

/-- Whoever runs code of its own can try, and gets an answer at once: it has the slot
from then on if the slot is free, and is refused if not. -/
theorem Pool.Sound.step_tryOpen (hp : p.Sound) (hl : (p.thread t).atLiberty = true)
    (hr : p.retired = false) :
    p.step t (.tryOpen : Move J E) =
      if p.slot = none then
        some ({ p with slot := some t }.setDuty t (.opening .ledger), [])
      else some (p, [.returned (.opened false)]) := by
  unfold Thread.atLiberty at hl
  split at hl
  case h_1 hc hd =>
    split
    · rename_i hfree
      exact (DutyStep.seizeAtOnce hr hfree).step hc hd
    · rename_i htaken
      exact (DutyStep.decline hr htaken).step hc hd
  case h_2 role x hc hd =>
    have htaken := hp.slot_ne_none_of_inJob hd
    rw [if_neg htaken]
    exact (DutyStep.declineJob hl htaken).step hc hd
  case h_3 => cases hl

theorem Pool.Sound.exists_hasSlot_iff (hp : p.Sound) :
    (∃ u, (p.thread u).HasSlot) ↔ p.slot ≠ none := by
  simp [hp.slot, Option.ne_none_iff_exists']

theorem Pool.Sound.tryOpen_refused_iff (hp : p.Sound) (hl : (p.thread t).atLiberty = true)
    (hr : p.retired = false) :
    ∃ q es, p.step t (.tryOpen : Move J E) = some (q, es) ∧
      (.returned (.opened false) ∈ es ↔ ∃ u, (p.thread u).HasSlot) ∧
      (.returned (.opened false) ∈ es → q = p) ∧
      (.returned (.opened false) ∉ es → (q.thread t).HasSlot) := by
  rw [hp.step_tryOpen hl hr, hp.exists_hasSlot_iff]
  by_cases hfree : p.slot = none
  · rw [if_pos hfree]
    exact ⟨_, _, rfl, by simp [hfree], by simp, fun _ => .inr (.inl (by simp))⟩
  · rw [if_neg hfree]
    exact ⟨_, _, rfl, by simp [hfree], by simp, by simp⟩

/-! ## One round after another -/

/-- When a round is opened, all jobs of the rounds before it have been called, released
and reported. -/
theorem Reached.earlier_done (hr : Reached n (h ++ [⟨t, m, es⟩]) q) (he : .opened ∈ es) :
    (jobsCalled h).Perm (jobsAdded h) ∧ ((jobsEnded h).map Prod.fst).Perm (jobsAdded h) ∧
      ∀ u, unreported u h = [] := by
  obtain ⟨p, hp, o, hs, ht⟩ := hr.last
  rw [ht.events] at he
  have hd := hs.of_opened he
  have hslot := (hp.sound.slot t).1 (.inr (.inr hd))
  have hblank := hp.sound.blank hslot (by simp [Thread.AtRest, hd])
  refine ⟨hp.weighed.perm_called hblank, hp.weighed.perm_ended hblank, fun u => ?_⟩
  exact (hp.unreported_eq_nil_iff u).2 (hblank.inFlight u)

/-- The jobs called after a round was opened are among those added after it was opened. -/
theorem Reached.called_after (hr : Reached n (h ++ ⟨t, m, es⟩ :: k) q)
    (he : .opened ∈ es) :
    (jobsCalled k).Subperm (jobsAdded k) := by
  have hsplit : h ++ ⟨t, m, es⟩ :: k = (h ++ [⟨t, m, es⟩]) ++ k := by simp
  rw [hsplit] at hr
  obtain ⟨p, hp, hafter⟩ := Run.of_append hr
  obtain ⟨p', hp', ht⟩ := Reached.last hp
  have hfresh : es.any Event.startsAfresh = true := List.any_eq_true.2 ⟨_, he, rfl⟩
  have hp := ht.afresh hp'.sound hfresh
  exact (Run.weighed hp.sound hp.blank hafter).subperm_called

/-- At most one thread has a round open, or is about to open one. Trying to open one is
refused just while somebody does. No job of a round is called before all jobs of the
rounds before it have been called, released and reported. None of this depends on how
the slot was given back. -/
theorem Reached.rounds_serialised (hr : Reached n h p) :
    (∀ t u, (p.thread t).HasSlot → (p.thread u).HasSlot → t = u) ∧
    (∀ k t m es k', h = k ++ ⟨t, m, es⟩ :: k' →
      (.opened ∈ es → opener k = none) ∧ (.closed ∈ es → opener k = some t) ∧
      ∀ jobs, .added jobs ∈ es → opener k = some t) ∧
    (∀ t, (p.thread t).atLiberty = true → p.retired = false →
      ∃ q es, p.step t (.tryOpen : Move J E) = some (q, es) ∧
        (.returned (.opened false) ∈ es ↔ ∃ u, (p.thread u).HasSlot) ∧
        (.returned (.opened false) ∈ es → q = p) ∧
        (.returned (.opened false) ∉ es → (q.thread t).HasSlot)) ∧
    (∀ k t m es k', h = k ++ ⟨t, m, es⟩ :: k' → .opened ∈ es →
      (jobsCalled k).Perm (jobsAdded k) ∧
      ((jobsEnded k).map Prod.fst).Perm (jobsAdded k) ∧
      (∀ u, unreported u k = []) ∧ (jobsCalled k').Subperm (jobsAdded k')) ∧
    ∀ b (k : List (Moment J E)) (q : Pool J),
      (∃ c, Run (p.marked b) k (q.marked c)) ↔ ∃ c, Run p k (q.marked c) := by
  have hp := hr.sound
  have hbefore : ∀ {k t m es k'}, h = k ++ ⟨t, m, es⟩ :: k' →
      ∃ q, Reached n (k ++ [⟨t, m, es⟩]) q := by
    intro k t m es k' hk
    have hsplit : h = (k ++ [⟨t, m, es⟩]) ++ k' := by
      rw [hk, List.append_assoc, List.singleton_append]
    rw [hsplit] at hr
    obtain ⟨q, hq, _⟩ := Run.of_append hr
    exact ⟨q, hq⟩
  refine ⟨fun t u ht hu => ?_, fun k t m es k' hk => ?_, fun t => hp.tryOpen_refused_iff,
    fun k t m es k' hk he => ?_, fun b k q => run_marked_iff p q k b⟩
  · exact (hp.eq_of_hasSlot ((hp.slot t).1 ht) hu).symm
  · obtain ⟨q, hq⟩ := hbefore hk
    exact hq.opener_of_event
  · obtain ⟨q, hq⟩ := hbefore hk
    obtain ⟨hcalled, hended, hnone⟩ := hq.earlier_done he
    rw [hk] at hr
    exact ⟨hcalled, hended, hnone, hr.called_after he⟩

/-- A client opens a round and adds a job. Another client is refused. The first one
closes its round while it is crashing, which carries out the job, and then the other one
is about to open a round. -/
def relay : List (Nat × Move Nat Unit) :=
  List.flatten [[(0, .openRound)], onward 0 4, [(0, .add [5])], onward 0 2,
    [(0, .rouse none), (1, .tryOpen)], [(0, .close true)], onward 0 4, carryOut 0 true,
    onward 0 10, [(1, .openRound)], onward 1 3]

theorem relay_serialised :
    ∃ q, Reached 1 ((played 1 relay).2 ++ [⟨1, .advance, [.opened]⟩]) q ∧
    q.poisoned = true ∧ jobsAdded (played 1 relay).2 = [5] ∧
    opener (played 1 relay).2 = none ∧ (jobsCalled (played 1 relay).2).Perm [5] ∧
    ∀ u, unreported u (played 1 relay).2 = [] := by
  have hbefore : Reached 1 (played 1 relay).2 (played 1 relay).1 :=
    .of_played (by decide +kernel)
  have hr : Reached 1 ((played 1 relay).2 ++ [⟨1, .advance, [.opened]⟩]) _ :=
    Run.snoc hbefore rfl
  have hopened : (.opened : Event Nat Unit) ∈ [.opened] := by simp
  obtain ⟨_, hevent, _, hdone, _⟩ := Reached.rounds_serialised hr
  obtain ⟨hcalled, _, hnone, _⟩ := hdone _ _ _ _ _ rfl hopened
  exact ⟨_, hr, rfl, rfl, (hevent _ _ _ _ _ rfl).1 hopened, hcalled, hnone⟩

end CheckRounds
