import CheckRounds.Proofs.Pool.Progress
import Mathlib.Data.Nat.Init
/-!
What a pool does without end, under a fair schedule.

A schedule is fair if a thread whose current operation could go on again and again does
move again and again. Nothing is asked of code that is not the pool's: a client may
never come back. Under a fair schedule both locks become free again and again, and a
call returns unless it waits for workers that do not finish (`Course.Fair.call_ends`).
-/

namespace CheckRounds

open Pool

/-- Without end: at each time some thread moves, or nobody does. -/
structure Course (J E : Type) where
  state : Nat → Pool J
  act : Nat → Option (Nat × Move J E)
  next : ∀ i, match act i with
    | none => state (i + 1) = state i
    | some (t, m) => ∃ es, (state i).step t m = some (state (i + 1), es)

namespace Course

variable {J E : Type} {n t u i j : Nat} {h : List (Moment J E)} {m : Move J E}
  {es : List (Event J E)} {c : Course J E}

def Moves (c : Course J E) (t i : Nat) : Prop := ∃ m, c.act i = some (t, m)

instance (c : Course J E) (t i : Nat) : Decidable (c.Moves t i) :=
  decidable_of_iff ((c.act i).map Prod.fst = some t) (by simp [Moves])

/-- Who could go on again and again moves again and again. -/
def Fair (c : Course J E) : Prop :=
  ∀ t, (∀ i, ∃ j, i ≤ j ∧ (c.state j).CanGoOn E t) → ∀ i, ∃ j, i ≤ j ∧ c.Moves t j

theorem next_cases (c : Course J E) (i : Nat) :
    (c.act i = none ∧ c.state (i + 1) = c.state i) ∨
      ∃ t m es, c.act i = some (t, m) ∧
      (c.state i).step t m = some (c.state (i + 1), es) := by
  have hnext := c.next i
  cases hact : c.act i with
  | none =>
    rw [hact] at hnext
    exact .inl ⟨rfl, hnext⟩
  | some tm =>
    obtain ⟨t, m⟩ := tm
    rw [hact] at hnext
    obtain ⟨es, hstep⟩ := hnext
    exact .inr ⟨t, m, es, rfl, hstep⟩

theorem Moves.step (hm : c.Moves t i) :
    ∃ (m : Move J E) (es : _), (c.state i).step t m = some (c.state (i + 1), es) := by
  obtain ⟨m, hact⟩ := hm
  rcases c.next_cases i with ⟨hnone, _⟩ | ⟨t', m', es, hsome, hstep⟩
  · cases hnone.symm.trans hact
  · obtain ⟨rfl, rfl⟩ := Prod.mk.inj (Option.some.inj (hact.symm.trans hsome))
    exact ⟨m, es, hstep⟩

/-- What every step keeps is kept. -/
theorem stable {P : Pool J → Prop}
    (keeps : ∀ {p q t m} {es : List (Event J E)}, P p → p.step t m = some (q, es) → P q)
    (hij : i ≤ j) (hi : P (c.state i)) : P (c.state j) := by
  induction j, hij using Nat.le_induction with
  | base => exact hi
  | succ j _ ih =>
    rcases c.next_cases j with ⟨_, hsame⟩ | ⟨t, m, es, _, hstep⟩
    · rwa [hsame]
    · exact keeps ih hstep

/-- What the steps of others keep is kept while `t` does not move. -/
theorem kept_of_still {P : Pool J → Prop}
    (keeps : ∀ {p q u m} {es : List (Event J E)}, t ≠ u → P p →
      p.step u m = some (q, es) → P q)
    (hstill : ∀ k, i ≤ k → ¬ c.Moves t k) (hij : i ≤ j) (hi : P (c.state i)) :
    P (c.state j) := by
  induction j, hij using Nat.le_induction with
  | base => exact hi
  | succ j hij ih =>
    rcases c.next_cases j with ⟨_, hsame⟩ | ⟨u, m, es, hact, hstep⟩
    · rwa [hsame]
    · refine keeps ?_ ih hstep
      rintro rfl
      exact hstill j hij ⟨m, hact⟩

/-! ## Every state can be reached -/

/-- What is on record of the step at time `i`. -/
def record (c : Course J E) (i : Nat) : List (Moment J E) :=
  match c.act i with
  | none => []
  | some (t, m) =>
    match (c.state i).step t m with
    | none => []
    | some (_, es) => [⟨t, m, es⟩]

/-- The history from the start of the course up to time `i`. -/
def history (c : Course J E) : Nat → List (Moment J E)
  | 0 => []
  | i + 1 => c.history i ++ c.record i

theorem record_of_step (hact : c.act i = some (t, m))
    (hstep : (c.state i).step t m = some (c.state (i + 1), es)) :
    c.record i = [⟨t, m, es⟩] := by
  simp only [record, hact, hstep]

theorem run_history (c : Course J E) (i : Nat) :
    Run (c.state 0) (c.history i) (c.state i) := by
  induction i with
  | zero => exact .nil _
  | succ i ih =>
    rcases c.next_cases i with ⟨hact, hsame⟩ | ⟨t, m, es, hact, hstep⟩
    · rw [hsame, history, record, hact, List.append_nil]
      exact ih
    · rw [history, record_of_step hact hstep]
      exact .snoc ih hstep

theorem history_of_step (hact : c.act i = some (t, m))
    (hstep : (c.state i).step t m = some (c.state (i + 1), es)) :
    c.history (i + 1) = c.history i ++ [⟨t, m, es⟩] := by
  rw [history, record_of_step hact hstep]

theorem history_mono (c : Course J E) (hij : i ≤ j) : c.history i <+: c.history j := by
  induction j, hij using Nat.le_induction with
  | base => exact List.prefix_rfl
  | succ j _ ih => exact ih.trans (List.prefix_append _ _)

theorem mem_events_of_le {e : Nat × Event J E} (hij : i ≤ j)
    (he : e ∈ events (c.history i)) :
    e ∈ events (c.history j) := by
  obtain ⟨k, hk⟩ := c.history_mono hij
  rw [← hk, events_append]
  exact List.mem_append_left _ he

theorem reached (hr : Reached n h (c.state 0)) (i : Nat) :
    ∃ k, Reached n (h ++ k) (c.state i) :=
  ⟨c.history i, Run.trans hr (c.run_history i)⟩

theorem sound (hr : Reached n h (c.state 0)) (i : Nat) : (c.state i).Sound :=
  (c.reached hr i).choose_spec.sound

theorem locked (hr : Reached n h (c.state 0)) (i : Nat) : (c.state i).Locked :=
  (c.reached hr i).choose_spec.locked

theorem orderly (hr : Reached n h (c.state 0)) (i : Nat) : (c.state i).Orderly :=
  (c.reached hr i).choose_spec.orderly

theorem openerWaits (hr : Reached n h (c.state 0)) (i : Nat) : OpenerWaits (c.state i) :=
  (c.reached hr i).choose_spec.openerWaits

/-- A thread that is awake and not new stays as it is in the steps of others. -/
theorem thread_of_ne (hstep : (c.state j).step u m = some (c.state (j + 1), es))
    (hu : u ≠ t) (ha : ((c.state j).thread t).isAsleep = false)
    (hn : ((c.state j).thread t).duty ≠ .client) :
    (c.state (j + 1)).thread t = (c.state j).thread t := by
  obtain ⟨o, _, ht⟩ := turns_of_step hstep
  refine ht.stays (Ne.symm hu) ha fun hnew => hn ?_
  rw [hnew]

/-! ## From fairness to the end of an operation -/

/-- A region is left with some first step, or never. -/
theorem stays_or_leaves_first (c : Course J E) {R : Pool J → Prop} (hi : R (c.state i)) :
    (∀ j, i ≤ j → R (c.state j)) ∨
      ∃ j, i ≤ j ∧ (∀ k, i ≤ k → k ≤ j → R (c.state k)) ∧ ¬ R (c.state (j + 1)) ∧
        ∃ u m es, c.act j = some (u, m) ∧
          (c.state j).step u m = some (c.state (j + 1), es) := by
  refine or_iff_not_imp_right.2 fun hstays => ?_
  have sofar (j) (hij : i ≤ j) : ∀ k, i ≤ k → k ≤ j → R (c.state k) := by
    induction j, hij using Nat.le_induction with
    | base =>
      intro k hik hki
      rwa [Nat.le_antisymm hki hik]
    | succ j hij ih =>
      have hnext : R (c.state (j + 1)) := by
        rcases c.next_cases j with ⟨_, hsame⟩ | hstep
        · rw [hsame]
          exact ih j hij (Nat.le_refl j)
        · by_contra hleft
          exact hstays ⟨j, hij, ih, hleft, hstep⟩
      intro k hik hkj
      rcases Nat.le_succ_iff.1 hkj with hkj | rfl
      · exact ih k hik hkj
      · exact hnext
  exact fun j hij => sofar j hij j hij (Nat.le_refl j)

theorem stays_or_leaves (c : Course J E) {R : Pool J → Prop} (hi : R (c.state i)) :
    (∀ j, i ≤ j → R (c.state j)) ∨
      ∃ j, i ≤ j ∧ R (c.state j) ∧ ¬ R (c.state (j + 1)) ∧
        ∃ u m es, c.act j = some (u, m) ∧
          (c.state j).step u m = some (c.state (j + 1), es) := by
  refine (c.stays_or_leaves_first hi).imp_right ?_
  rintro ⟨j, hij, hsofar, hleft, hstep⟩
  exact ⟨j, hij, hsofar j hij (Nat.le_refl j), hleft, hstep⟩

/-- In a region of states, from time `i` on, each step of `t` lowers a rank that no
other step raises, and `t` can go on some time as long as it does not move. -/
structure Descent (c : Course J E) (t i : Nat) (R : Pool J → Prop) (rank : Pool J → Nat) :
    Prop where
  own : ∀ j, i ≤ j → R (c.state j) → R (c.state (j + 1)) → c.Moves t j →
    rank (c.state (j + 1)) < rank (c.state j)
  others : ∀ {p q u m} {es : List (Event J E)}, t ≠ u → p.Locked → R p →
    p.step u m = some (q, es) → rank q ≤ rank p
  able : ∀ k, i ≤ k → R (c.state k) → (∀ j, k ≤ j → ¬ c.Moves t j) →
    ∃ j, k ≤ j ∧ (c.state j).CanGoOn E t

theorem Descent.rank_le {R : Pool J → Prop} {rank : Pool J → Nat}
    (hd : c.Descent t i R rank) (hr : Reached n h (c.state 0))
    (hR : ∀ j, i ≤ j → R (c.state j)) {k : Nat} (hik : i ≤ k) (hkj : k ≤ j) :
    rank (c.state j) ≤ rank (c.state k) := by
  induction j, hkj using Nat.le_induction with
  | base => exact Nat.le_refl _
  | succ j hkj ih =>
    have hij : i ≤ j := by omega
    refine Nat.le_trans ?_ ih
    rcases c.next_cases j with ⟨_, hsame⟩ | ⟨u, m, es, hact, hstep⟩
    · exact Nat.le_of_eq (by rw [hsame])
    · by_cases hu : t = u
      · exact Nat.le_of_lt
          (hd.own j hij (hR j hij) (hR (j + 1) (by omega)) ⟨m, hu ▸ hact⟩)
      · exact hd.others hu (c.locked hr j) (hR j hij) hstep

/-- Else it would not move although it could again and again. -/
theorem Fair.moves_again (hf : c.Fair) {R : Pool J → Prop} {rank : Pool J → Nat}
    (hd : c.Descent t i R rank) (hR : ∀ j, i ≤ j → R (c.state j)) {k : Nat}
    (hik : i ≤ k) :
    ∃ j, k ≤ j ∧ c.Moves t j := by
  by_contra hstill
  have hstill' : ∀ j, k ≤ j → ¬ c.Moves t j := fun j hkj hm => hstill ⟨j, hkj, hm⟩
  refine hstill (hf t (fun k' => ?_) k)
  obtain ⟨j, hj, hable⟩ :=
    hd.able (max k k') (by omega) (hR _ (by omega)) fun l hl => hstill' l (by omega)
  exact ⟨j, by omega, hable⟩

/-- A rank cannot fall for ever, so under a fair schedule the region is left. -/
theorem Fair.leaves (hf : c.Fair) (hr : Reached n h (c.state 0)) {R : Pool J → Prop}
    {rank : Pool J → Nat} (hd : c.Descent t i R rank) (hi : R (c.state i)) :
    ∃ j, i ≤ j ∧ R (c.state j) ∧ ¬ R (c.state (j + 1)) ∧
      ∃ u m es, c.act j = some (u, m) ∧
      (c.state j).step u m = some (c.state (j + 1), es) := by
  refine (c.stays_or_leaves hi).resolve_left fun hR => ?_
  -- Induction on the rank: the next step of `t` is at a lower one.
  have descends : ∀ r k, i ≤ k → rank (c.state k) = r → False := by
    intro r
    induction r using Nat.strongRecOn with
    | ind r ih =>
      intro k hik hrank
      obtain ⟨j, hkj, hm⟩ := hf.moves_again hd hR hik
      have hlt := hd.own j (by omega) (hR j (by omega)) (hR (j + 1) (by omega)) hm
      have hle := hd.rank_le hr hR hik hkj
      exact ih _ (by omega) (j + 1) (by omega) rfl
  exact descends _ i (Nat.le_refl i) rfl

/-! ## The locks become free -/

/-- Who has the ledger needs nothing else, and its next step gives the ledger back. -/
theorem ledger_descent (hr : Reached n h (c.state 0)) (v i : Nat) :
    c.Descent v i (fun p => p.ledgerLock = some v) fun _ => 0 := by
  have hneed (k) (hk : (c.state k).ledgerLock = some v) :
      ((c.state k).thread v).need = .ledger :=
    (c.locked hr k).ledger v hk
  constructor
  case own =>
    intro j _ hj hj' hm
    obtain ⟨m, es, hstep⟩ := hm.step
    cases ledgerGrip_of_step hstep with
    | take _ free | wake _ free => cases free.symm.trans hj
    | use _ _ given => cases given.symm.trans hj'
    | keep need => exact absurd (hneed j hj) need
  case others =>
    intros
    exact Nat.le_refl _
  case able =>
    intro k _ hk _
    refine ⟨k, Nat.le_refl k, canGoOn_of_met (c.sound hr k) (c.orderly hr k) ?_⟩
    rw [hneed k hk]
    exact .inr hk

theorem Fair.ledger_free (hf : c.Fair) (hr : Reached n h (c.state 0)) (i : Nat) :
    ∃ j, i ≤ j ∧ (c.state j).ledgerLock = none := by
  cases hlock : (c.state i).ledgerLock with
  | none => exact ⟨i, Nat.le_refl i, hlock⟩
  | some v =>
    obtain ⟨j, hij, hj, hleft, u, m, es, _, hstep⟩ :=
      hf.leaves hr (ledger_descent hr v i) hlock
    refine ⟨j + 1, by omega, ?_⟩
    cases ledgerGrip_of_step hstep with
    | take _ free | wake _ free => cases free.symm.trans hj
    | use _ _ given => exact given
    | keep _ kept => exact absurd (kept.trans hj) hleft

/-- Nobody takes the roster away from a thread that does not move. -/
theorem rosterLock_of_still (hr : Reached n h (c.state 0))
    (hstill : ∀ k, i ≤ k → ¬ c.Moves t k) (hij : i ≤ j)
    (hi : (c.state i).rosterLock = some t) : (c.state j).rosterLock = some t := by
  refine (kept_of_still (P := fun p => p.rosterLock = some t ∧ p.Locked) ?_ hstill hij
    ⟨hi, c.locked hr i⟩).1
  intro p q u m es hu hp hstep
  exact ⟨((rosterGrip_of_step hstep).mine_iff hp.2 hu).2 hp.1, hp.2.step hstep⟩

/-- Who has the roster needs at most the ledger, so it comes to the point where it gives
the roster back. -/
theorem Fair.roster_descent (hf : c.Fair) (hr : Reached n h (c.state 0)) (v i : Nat) :
    c.Descent v i (fun p => p.rosterLock = some v) (callRank · v) := by
  have holds (k) (hk : (c.state k).rosterLock = some v) :
      ∃ call, ((c.state k).thread v).call = some call ∧ call.joins = false ∧
        (call.need = .nothing ∨ call.need = .ledger ∨ call.need = .roster) :=
    Thread.call_of_roster ((c.locked hr k).roster v hk)
  constructor
  case own =>
    intro j _ hj _ hm
    obtain ⟨m, es, hstep⟩ := hm.step
    obtain ⟨call, hc, hjoins, _⟩ := holds j hj
    exact (callStep_of_step hc hstep).callRank_lt hc hjoins
  case others =>
    intro p q u m es hu hl _ hstep
    exact Nat.le_of_eq (hl.callRank_of_ne hstep hu).2
  case able =>
    intro k _ hk hstill
    -- It still has the roster when the ledger is free next.
    obtain ⟨j, hkj, hfree⟩ := hf.ledger_free hr k
    have hj := c.rosterLock_of_still hr hstill hkj hk
    obtain ⟨call, hc, _, hneed⟩ := holds j hj
    refine ⟨j, hkj, canGoOn_of_met (c.sound hr j) (c.orderly hr j) ?_⟩
    rw [Thread.need_of_call hc]
    rcases hneed with hneed | hneed | hneed <;> rw [hneed]
    · trivial
    · exact .inl hfree
    · exact .inr hj

theorem Fair.roster_free (hf : c.Fair) (hr : Reached n h (c.state 0)) (i : Nat) :
    ∃ j, i ≤ j ∧ (c.state j).rosterLock = none := by
  cases hlock : (c.state i).rosterLock with
  | none => exact ⟨i, Nat.le_refl i, hlock⟩
  | some v =>
    obtain ⟨j, hij, hj, hleft, u, m, es, _, hstep⟩ :=
      hf.leaves hr (hf.roster_descent hr v i) hlock
    refine ⟨j + 1, by omega, ?_⟩
    cases rosterGrip_of_step hstep with
    | take _ free | seize free => cases free.symm.trans hj
    | give _ given => exact given
    | keep _ kept => exact absurd (kept.trans hj) hleft

/-! ## A call returns -/

/-- A call that others leave alone stays as it is. -/
theorem call_of_still {call : Call} (hstill : ∀ k, i ≤ k → ¬ c.Moves t k) (hij : i ≤ j)
    (hc : ((c.state i).thread t).call = some call) :
    ((c.state j).thread t).call = some call :=
  kept_of_still (P := fun p => (p.thread t).call = some call)
    (fun hu hp hstep => by
      obtain ⟨o, _, ht⟩ := turns_of_step hstep
      rw [ht.same Thread.call_roused rfl hu, hp]) hstill hij hc

/-- A call can go on again and again, unless it waits for a worker that does not
finish. -/
theorem Fair.able_of_call (hf : c.Fair) (hr : Reached n h (c.state 0)) {call : Call}
    (hc : ((c.state i).thread t).call = some call) (hstill : ∀ k, i ≤ k → ¬ c.Moves t k)
    (hjoin : ∀ w, call.need = .finish w →
      ∃ j, i ≤ j ∧ ((c.state j).thread w).duty = .finished) :
    ∃ j, i ≤ j ∧ (c.state j).CanGoOn E t := by
  have able (j) (hij : i ≤ j) (hm : call.need.Met (c.state j) t) :
      (c.state j).CanGoOn E t := by
    refine canGoOn_of_met (c.sound hr j) (c.orderly hr j) ?_
    rwa [Thread.need_of_call (call_of_still hstill hij hc)]
  rcases call.need_cases with hneed | hneed | hneed | hneed | ⟨_, w, hneed⟩
  · exact ⟨i, Nat.le_refl i, able i (Nat.le_refl i) (by rw [hneed]; trivial)⟩
  · obtain ⟨j, hij, hfree⟩ := hf.ledger_free hr i
    exact ⟨j, hij, able j hij (by rw [hneed]; exact .inl hfree)⟩
  · obtain ⟨j, hij, hfree⟩ := hf.roster_free hr i
    exact ⟨j, hij, able j hij (by rw [hneed]; exact .inl hfree)⟩
  · obtain ⟨j, hij, hfree⟩ := hf.roster_free hr i
    exact ⟨j, hij, able j hij (by rw [hneed]; exact hfree)⟩
  · obtain ⟨j, hij, hd⟩ := hjoin w hneed
    exact ⟨j, hij, able j hij (by rw [hneed]; exact hd)⟩

/-- The call of `t` has not come to the wait for workers. -/
def InCall (t : Nat) (p : Pool J) : Prop :=
  ∃ call, (p.thread t).call = some call ∧ call.joins = false

/-- The call of `t` waits for workers. -/
def InJoin (t : Nat) (p : Pool J) : Prop :=
  ∃ left count, (p.thread t).call = some (.stopping (.joining left count))

theorem Fair.call_descent (hf : c.Fair) (hr : Reached n h (c.state 0)) (t i : Nat) :
    c.Descent t i (InCall t) (callRank · t) := by
  constructor
  case own =>
    rintro j _ ⟨call, hc, hjoins⟩ _ hm
    obtain ⟨m, es, hstep⟩ := hm.step
    exact (callStep_of_step hc hstep).callRank_lt hc hjoins
  case others =>
    intro p q u m es hu hl _ hstep
    exact Nat.le_of_eq (hl.callRank_of_ne hstep hu).2
  case able =>
    rintro k _ ⟨call, hc, hjoins⟩ hstill
    refine hf.able_of_call hr hc hstill fun w hw => ?_
    simp [Call.joins_of_need hw] at hjoins

/-- The wait for workers takes one off the list with each step. -/
theorem Fair.join_descent (hf : c.Fair) (hr : Reached n h (c.state 0)) (t i : Nat)
    (hjoin : ∀ k call w, i ≤ k → ((c.state k).thread t).call = some call →
      w ∈ call.waitsFor → ∃ j, k ≤ j ∧ ((c.state j).thread w).duty = .finished) :
    c.Descent t i (InJoin t) fun p =>
      ((p.thread t).call.elim [] Call.waitsFor).length := by
  constructor
  case own =>
    rintro k _ ⟨left, count, hc⟩ ⟨_, _, hc'⟩ hm
    obtain ⟨m, es, hstep⟩ := hm.step
    rcases call_of_joining hc hstep with ⟨_, hnone⟩ | ⟨w, rest, rfl, hrest⟩
    · cases hnone.symm.trans hc'
    · simp [hc, hrest, Call.waitsFor]
  case others =>
    intro p q u m es hu hl _ hstep
    exact Nat.le_of_eq (by rw [(hl.callRank_of_ne hstep hu).1])
  case able =>
    rintro k hk ⟨left, count, hc⟩ hstill
    refine hf.able_of_call hr hc hstill fun w hw => ?_
    exact hjoin k _ w hk hc (Call.mem_waitsFor_of_need hw)

/-- Every call comes to its end or to the wait for workers. -/
theorem Fair.call_joins (hf : c.Fair) (hr : Reached n h (c.state 0)) (t i : Nat) :
    ∃ j, i ≤ j ∧ (((c.state j).thread t).call = none ∨ InJoin t (c.state j)) := by
  have settled (j) (hnot : ¬ InCall t (c.state j)) :
      ((c.state j).thread t).call = none ∨ InJoin t (c.state j) := by
    cases hc : ((c.state j).thread t).call with
    | none => exact .inl rfl
    | some call =>
      have hjoins : call.joins = true := by
        by_contra hjoins
        exact hnot ⟨call, hc, by simpa using hjoins⟩
      obtain ⟨left, count, rfl⟩ := Call.eq_joining_of_joins hjoins
      exact .inr ⟨left, count, hc⟩
  by_cases hi : InCall t (c.state i)
  · obtain ⟨j, hij, _, hleft, _⟩ := hf.leaves hr (hf.call_descent hr t i) hi
    exact ⟨j + 1, by omega, settled (j + 1) hleft⟩
  · exact ⟨i, Nat.le_refl i, settled i hi⟩

/-- A call returns if each worker that it waits for finishes. -/
theorem Fair.call_ends (hf : c.Fair) (hr : Reached n h (c.state 0)) (t i : Nat)
    (hjoin : ∀ k call w, i ≤ k → ((c.state k).thread t).call = some call →
      w ∈ call.waitsFor → ∃ j, k ≤ j ∧ ((c.state j).thread w).duty = .finished) :
    ∃ j, i ≤ j ∧ ((c.state j).thread t).call = none := by
  obtain ⟨i', hi, hnone | hwaits⟩ := hf.call_joins hr t i
  · exact ⟨i', hi, hnone⟩
  have hdescent := hf.join_descent hr t i' fun k call w hk => hjoin k call w (by omega)
  obtain ⟨j, hij, ⟨left, count, hj⟩, hleft, u, m, es, _, hstep⟩ :=
    hf.leaves hr hdescent hwaits
  refine ⟨j + 1, by omega, ?_⟩
  by_cases hu : t = u
  · subst hu
    rcases call_of_joining hj hstep with ⟨_, hnone⟩ | ⟨w, rest, _, hrest⟩
    · exact hnone
    · exact absurd ⟨rest, count, hrest⟩ hleft
  · exact absurd ⟨left, count,
      (((c.locked hr j).callRank_of_ne hstep hu).1).trans hj⟩ hleft

end Course

/-! ## A course that comes to rest -/

/-- In the code of a job the thread neither goes on by itself nor has finished. -/
theorem Execution.stuck_of_inJob {J E : Type} {x : Execution J} (h : x.inJob = true) :
    x.finished = false ∧ x.step (.proceed : Deed E) = none := by
  cases hx : x.phase <;> simp [inJob, current?, finished, step, hx] at h ⊢

/-- The thread is a client without a call, or a worker that has left. -/
def Thread.isIdle {J : Type} (th : Thread J) : Bool :=
  match th.call, th.duty with
  | none, .client => true
  | none, .finished => true
  | _, _ => false

theorem Thread.need_of_isIdle {J : Type} {th : Thread J} (h : th.isIdle = true) :
    th.need = .impulse := by
  unfold isIdle at h
  split at h
  case h_1 hc hd | h_2 hc hd => rw [need_of_duty hc, hd]; rfl
  case h_3 => cases h

namespace Pool

variable {J E : Type} {p q : Pool J} {t : Nat}

/-- The states that these moves lead through; the last one stays. -/
def trail (p : Pool J) : List (Nat × Move J E) → Nat → Pool J
  | [], _ => p
  | _, 0 => p
  | (t, m) :: ms, i + 1 =>
    match p.step t m with
    | none => p
    | some (q, _) => q.trail ms i

@[simp] theorem trail_zero (p : Pool J) (ms : List (Nat × Move J E)) :
    p.trail ms 0 = p := by
  cases ms <;> rfl

theorem trail_next {ms : List (Nat × Move J E)} (hp : (p.play ms).isSome = true)
    (i : Nat) :
    match ms[i]? with
    | none => p.trail ms (i + 1) = p.trail ms i
    | some (t, m) => ∃ es, (p.trail ms i).step t m = some (p.trail ms (i + 1), es) := by
  induction ms generalizing p i with
  | nil => rfl
  | cons tm ms ih =>
    obtain ⟨t, m⟩ := tm
    rw [play] at hp
    split at hp
    · cases hp
    · rename_i q es hstep
      have hq : (q.play ms).isSome = true := by
        split at hp
        · cases hp
        · rename_i hplay
          rw [hplay]
          rfl
      cases i with
      | zero => exact ⟨es, by simp [trail, hstep]⟩
      | succ i =>
        have hnext := ih hq i
        simpa only [List.getElem?_cons_succ, trail, hstep] using hnext

/-- A thread goes on by itself only if its operation has a step of its own. -/
theorem not_canGoOn_of_impulse (h : (p.thread t).need = .impulse) : ¬ p.CanGoOn E t := by
  have hc : (p.thread t).call = none := by
    by_contra hsome
    obtain ⟨call, hcall⟩ := Option.ne_none_iff_exists'.1 hsome
    exact call.need_ne_impulse ((Thread.need_of_call hcall).symm.trans h)
  rw [Thread.need_of_duty hc] at h
  rintro ⟨m, hm, hsome⟩
  obtain ⟨⟨q, es⟩, hstep⟩ := Option.isSome_iff_exists.1 hsome
  cases soloStep_of_step hc hstep with
  | begins => cases hm
  | goesOn _ hd step =>
    rw [hd] at h
    cases step with
    | lockLedger need => cases need.symm.trans h
    | @work _ x y d e step =>
      -- In a job only the job's own code moves, and not by itself.
      have hjob : x.inJob = true := by simpa [Duty.need, LoopStage.need] using h
      cases d with
      | proceed => cases (Execution.stuck_of_inJob (E := E) hjob).2.symm.trans step
      | _ => cases hm
    | @finish _ x finished =>
      have hjob : x.inJob = true := by simpa [Duty.need, LoopStage.need] using h
      cases (Execution.stuck_of_inJob (E := E) hjob).1.symm.trans finished
    | knock | seizeAtOnce | decline | declineJob | addNothing | submit | retell
    | engage | dismiss | engageToClose | stir => cases hm
    | _ => cases h

theorem not_canGoOn_of_needs (h : ∀ th ∈ p.threads, th.need = .impulse) (t : Nat) :
    ¬ p.CanGoOn E t := by
  refine not_canGoOn_of_impulse ?_
  rcases thread_mem_or_default p t with hmem | hnew
  · exact h _ hmem
  · rw [hnew]
    rfl

theorem not_canGoOn_of_all (h : p.threads.all Thread.isIdle = true) (t : Nat) :
    ¬ p.CanGoOn E t :=
  not_canGoOn_of_needs (fun th hth => Thread.need_of_isIdle (List.all_eq_true.1 h th hth))
    t

end Pool

namespace Course

variable {J E : Type} {n t u i j : Nat} {h : List (Moment J E)} {c : Course J E}

/-- Plays the moves, and rests. -/
def playing (p : Pool J) (ms : List (Nat × Move J E)) (hp : (p.play ms).isSome = true) :
    Course J E where
  state := p.trail ms
  act i := ms[i]?
  next := trail_next hp

theorem state_of_rest (hrest : ∀ k, i ≤ k → c.act k = none) (hij : i ≤ j) :
    c.state j = c.state i := by
  induction j, hij using Nat.le_induction with
  | base => rfl
  | succ j hij ih =>
    rcases c.next_cases j with ⟨_, hsame⟩ | ⟨t, m, es, hact, _⟩
    · rw [hsame, ih]
    · cases (hrest j hij).symm.trans hact

theorem forall_of_rest {P : Pool J → Prop} (hrest : ∀ k, i ≤ k → c.act k = none)
    (h : ∀ k ≤ i, P (c.state k)) (j : Nat) : P (c.state j) := by
  by_cases hij : i ≤ j
  · rw [state_of_rest hrest hij]
    exact h i (Nat.le_refl i)
  · exact h j (Nat.le_of_not_le hij)

theorem history_of_rest (hrest : ∀ k, i ≤ k → c.act k = none) (hij : i ≤ j) :
    c.history j = c.history i := by
  induction j, hij using Nat.le_induction with
  | base => rfl
  | succ j hij ih => rw [history, ih, record, hrest j hij, List.append_nil]

/-- What is on record of a course that comes to rest is on record by then. -/
theorem mem_history_of_rest {m : Moment J E} (hrest : ∀ k, i ≤ k → c.act k = none)
    (hm : m ∈ c.history j) :
    m ∈ c.history i := by
  by_cases hij : i ≤ j
  · rwa [history_of_rest hrest hij] at hm
  · exact (c.history_mono (Nat.le_of_not_le hij)).subset hm

/-- Where nobody can go on it is fair to rest. -/
theorem fair_of_rest (hrest : ∀ k, i ≤ k → c.act k = none)
    (hidle : ∀ t, ¬ (c.state i).CanGoOn E t) : c.Fair := by
  intro t hagain
  obtain ⟨j, hij, hable⟩ := hagain i
  rw [state_of_rest hrest hij] at hable
  exact absurd hable (hidle t)

end Course

end CheckRounds
