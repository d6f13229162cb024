import CheckRounds.Proofs.Pool.Request
/-!
The roster, the flag, and who starts workers.

Who starts or stops workers has the roster until it is done with it, so nobody else
changes the roster or the flag meanwhile (`Pool.Locked.undisturbed`). A start goes on
from its check as if it were alone; a stop that has set the flag leaves the roster empty
before it gives it back. So workers are started once at most.
-/

namespace CheckRounds

open Pool

variable {J E : Type} {n t u : Nat} {h : List (Moment J E)} {m : Move J E}
  {es : List (Event J E)} {p q : Pool J} {c : Call}

/-! ## Nobody interferes with a start or a stop -/

/-- No start and no stop of workers has the roster. -/
def Pool.Calm (p : Pool J) : Prop := ∀ u, (p.thread u).keepsRoster = false

theorem Pool.Locked.calm (hl : p.Locked) (hfree : p.rosterLock = none) : p.Calm := by
  intro u
  rw [Bool.eq_false_iff]
  intro hkeeps
  cases (hl.kept u hkeeps).symm.trans hfree

/-- Only a start or a stop that has the roster changes it, or the flag. -/
theorem Pool.untouched_of_step (hstep : p.step t m = some (q, es))
    (hk : (p.thread t).keepsRoster = false) :
    q.ledger.shuttingDown = p.ledger.shuttingDown ∧ q.roster = p.roster := by
  cases hc : (p.thread t).call with
  | none =>
    refine ⟨?_, (soloGrip_of_step hc hstep).roster⟩
    cases soloStep_of_step hc hstep with
    | begins => rfl
    | goesOn _ _ step => exact (step.frame hc).flag
  | some c =>
    rw [Thread.keepsRoster_of_call hc] at hk
    cases callStep_of_step hc hstep with
    | spawn | flag | collectNone | collect => cases hk
    | _ => exact ⟨rfl, rfl⟩

/-- While a thread has the roster to start or stop workers, no other one changes the
roster or the flag. -/
theorem Pool.Locked.undisturbed (hl : p.Locked) (hstep : p.step t m = some (q, es))
    (hu : u ≠ t) (hk : (p.thread u).keepsRoster = true) :
    q.ledger.shuttingDown = p.ledger.shuttingDown ∧ q.roster = p.roster := by
  refine untouched_of_step hstep (Bool.eq_false_iff.2 fun ht => hu ?_)
  exact Option.some.inj ((hl.kept u hk).symm.trans (hl.kept t ht))

/-! ## What a start knows -/

/-- What a start knows of the pool at its points, after it has checked the flag and the
roster. -/
def Call.Agrees (p : Pool J) : Call → Prop
  | .starting _ (.spawning i) => p.ledger.shuttingDown = false ∧ p.roster.length = i
  | .starting count .logging => p.ledger.shuttingDown = false ∧ p.roster.length = count
  | .starting count (.returning (.ok ())) =>
    p.ledger.shuttingDown = false ∧ p.roster.length = count
  | .starting _ (.returning (.error e)) => p.startRefusal? = some e
  | _ => True

theorem Pool.startRefusal?_congr (hf : q.ledger.shuttingDown = p.ledger.shuttingDown)
    (hr : q.roster = p.roster) : q.startRefusal? = p.startRefusal? := by
  unfold startRefusal?
  rw [hf, hr]

theorem Pool.of_startRefusal?_none (h : p.startRefusal? = none) :
    p.ledger.shuttingDown = false ∧ p.roster = [] := by
  unfold startRefusal? at h
  split at h
  · cases h
  · rename_i hflag
    split at h
    · rename_i hempty
      exact ⟨by simpa using hflag, by simpa using hempty⟩
    · cases h

theorem Pool.of_startRefusal?_some {e : PoolError} (h : p.startRefusal? = some e) :
    e = .shutDown ∧ p.ledger.shuttingDown = true ∨
      e = .alreadyStarted p.roster.length ∧ 0 < p.roster.length := by
  unfold startRefusal? at h
  split at h
  · rename_i hflag
    exact .inl ⟨(Option.some.inj h).symm, hflag⟩
  · split at h
    · cases h
    · rename_i hsome
      exact .inr ⟨(Option.some.inj h).symm, List.length_pos_iff.2 (by simpa using hsome)⟩

theorem Call.Agrees.congr (ha : c.Agrees p)
    (hf : q.ledger.shuttingDown = p.ledger.shuttingDown) (hr : q.roster = p.roster) :
    c.Agrees q := by
  unfold Agrees at ha ⊢
  split <;> simp_all [startRefusal?_congr hf hr]

theorem Call.agrees_of_not_keepsRoster (h : c.keepsRoster = false) : c.Agrees p := by
  unfold Agrees
  split <;> trivial

/-- The roster and the flag, seen from those who start and stop workers. -/
structure Pool.Listed (p : Pool J) : Prop where
  starts : ∀ u c, (p.thread u).call = some c → c.Agrees p
  /-- Once the flag is set the roster is empty, or the stop that set it is about to
  empty it. -/
  stops : p.ledger.shuttingDown = true → p.roster = [] ∨
    ∃ u, (p.thread u).call = some (.stopping .rousing) ∨
    (p.thread u).call = some (.stopping .collecting)

theorem Pool.Listed.new (n : Nat) : (Pool.new n : Pool J).Listed where
  starts u c hc := by cases hc
  stops hf := by cases hf

theorem CallStep.agrees {c' : Call} (h : CallStep p t c m q es) (ha : c.Agrees p)
    (hc : (p.thread t).call = some c) (hq : (q.thread t).call = some c') :
    c'.Agrees q := by
  have next {x : Pool J} {d : Option Call} (hx : q = x.setCall t d) : d = some c' := by
    rw [hx, call_setCall] at hq
    exact hq
  cases h with
  | lockLedger | lockRoster =>
    obtain rfl := Option.some.inj (hc.symm.trans hq)
    exact ha.congr rfl rfl
  | accept _ why =>
    obtain rfl := Option.some.inj (next rfl)
    obtain ⟨hflag, hroster⟩ := of_startRefusal?_none why
    exact ⟨hflag, List.length_eq_zero_iff.2 hroster⟩
  | refuse _ why =>
    obtain rfl := Option.some.inj (next rfl)
    exact why
  | spawn =>
    obtain rfl := Option.some.inj (next rfl)
    exact ⟨ha.1, by simp [setCall, setThread, ha.2]⟩
  | complete | logStart =>
    obtain rfl := Option.some.inj (next rfl)
    exact ha
  | configure | readBatchSize | countWorkers | measure | endStart | collectNone
  | endStop =>
    cases next rfl
  | _ =>
    obtain rfl := Option.some.inj (next rfl)
    trivial

theorem Pool.Listed.starts_step (hp : p.Listed) (hl : p.Locked)
    (hstep : p.step t m = some (q, es)) (hq : (q.thread u).call = some c) :
    c.Agrees q := by
  by_cases hu : u = t
  · subst hu
    cases hc : (p.thread u).call with
    | none =>
      have hfresh := ((soloGrip_of_step hc hstep).begun c hq).1
      exact Call.agrees_of_not_keepsRoster (Call.keepsRoster_of_fresh hfresh)
    | some d => exact (callStep_of_step hc hstep).agrees (hp.starts u d hc) hc hq
  · obtain ⟨o, _, ht⟩ := turns_of_step hstep
    have hc : (p.thread u).call = some c :=
      (ht.same Thread.call_roused rfl hu).symm.trans hq
    cases hk : c.keepsRoster with
    | false => exact Call.agrees_of_not_keepsRoster hk
    | true =>
      obtain ⟨hflag, hroster⟩ :=
        hl.undisturbed hstep hu ((Thread.keepsRoster_of_call hc).trans hk)
      exact (hp.starts u c hc).congr hflag hroster

theorem Pool.Listed.stops_step (hp : p.Listed) (hstep : p.step t m = some (q, es))
    (hf : q.ledger.shuttingDown = true) : q.roster = [] ∨ ∃ u,
      (q.thread u).call = some (.stopping .rousing) ∨
      (q.thread u).call = some (.stopping .collecting) := by
  obtain ⟨o, _, ht⟩ := turns_of_step hstep
  have others {u : Nat} (hu : u ≠ t) : (q.thread u).call = (p.thread u).call :=
    ht.same Thread.call_roused rfl hu
  -- A step that keeps flag and roster, and is none of a stop with the flag set, keeps
  -- the alternative.
  have kept (hflag : q.ledger.shuttingDown = p.ledger.shuttingDown)
      (hroster : q.roster = p.roster)
      (hmine : (p.thread t).call ≠ some (.stopping .rousing) ∧
        (p.thread t).call ≠ some (.stopping .collecting)) :
      q.roster = [] ∨ ∃ u, (q.thread u).call = some (.stopping .rousing) ∨
        (q.thread u).call = some (.stopping .collecting) := by
    rcases hp.stops (hflag ▸ hf) with hempty | ⟨u, hu⟩
    · exact .inl (hroster.trans hempty)
    · refine .inr ⟨u, ?_⟩
      rwa [others (by rintro rfl; exact hu.elim hmine.1 hmine.2)]
  cases hc : (p.thread t).call with
  | none =>
    refine kept ?_ (soloGrip_of_step hc hstep).roster (by simp [hc])
    cases soloStep_of_step hc hstep with
    | begins => rfl
    | goesOn _ _ step => exact (step.frame hc).flag
  | some c =>
    cases callStep_of_step hc hstep with
    | lockLedger need | lockRoster need =>
      refine kept rfl rfl ?_
      constructor <;> rintro hstop <;> cases hc.symm.trans hstop <;> cases need
    | spawn =>
      -- Workers are started while the flag is not set.
      cases (hp.starts t _ hc).1.symm.trans hf
    | flag => exact .inr ⟨t, .inl (call_setCall _ _ _)⟩
    | alarm => exact .inr ⟨t, .inr (call_setCall _ _ _)⟩
    | collectNone | collect => exact .inl rfl
    | _ => exact kept rfl rfl (by simp [hc])

theorem Pool.Listed.step (hp : p.Listed) (hl : p.Locked)
    (hstep : p.step t m = some (q, es)) : q.Listed where
  starts _ _ := hp.starts_step hl hstep
  stops := hp.stops_step hstep

theorem Reached.listed (hr : Reached n h p) : p.Listed := by
  induction hr with
  | nil => exact .new n
  | snoc before last ih => exact ih.step (Reached.locked before) last

/-- Once the flag is set, the roster is empty whenever no start and no stop has it. -/
theorem Reached.roster_eq_nil_of_calm (hr : Reached n h p) (hcalm : p.Calm)
    (hf : p.ledger.shuttingDown = true) : p.roster = [] := by
  refine (hr.listed.stops hf).resolve_right ?_
  rintro ⟨u, hu | hu⟩ <;> cases (Thread.keepsRoster_of_call hu).symm.trans (hcalm u)

theorem Reached.roster_eq_nil (hr : Reached n h p) (hfree : p.rosterLock = none)
    (hf : p.ledger.shuttingDown = true) : p.roster = [] :=
  hr.roster_eq_nil_of_calm (hr.locked.calm hfree) hf

/-! ## Starts that succeed -/

/-- With this moment a start of `count` workers succeeds. -/
def Moment.Grants (before : List (Moment J E)) (m : Moment J E) (count : Nat) : Prop :=
  .returned (.started (.ok ())) ∈ m.events ∧
  lastRequest m.thread before = some (.start count)

/-- At least one worker was started with success. -/
def Staffed (h : List (Moment J E)) : Prop :=
  ∃ k m k' count, h = k ++ m :: k' ∧ m.Grants k count ∧ 0 < count

theorem staffed_concat {a : Moment J E} :
    Staffed (h ++ [a]) ↔ Staffed h ∨ ∃ count, a.Grants h count ∧ 0 < count := by
  constructor
  · rintro ⟨k, b, k', count, hk, hgrants, hpos⟩
    rcases List.eq_nil_or_concat k' with rfl | ⟨l, b', rfl⟩
    · obtain ⟨rfl, hb⟩ := List.append_inj' hk rfl
      cases hb
      exact .inr ⟨count, hgrants, hpos⟩
    · rw [List.concat_eq_append, ← List.cons_append, ← List.append_assoc] at hk
      obtain ⟨rfl, _⟩ := List.append_inj' hk rfl
      exact .inl ⟨k, b, l, count, rfl, hgrants, hpos⟩
  · rintro (⟨k, b, k', count, rfl, hgrants, hpos⟩ | ⟨count, hgrants, hpos⟩)
    · exact ⟨k, b, k' ++ [a], count, by simp, hgrants, hpos⟩
    · exact ⟨h, a, [], count, rfl, hgrants, hpos⟩

/-- The start has found the flag unset and the roster empty. -/
def Call.accepted : Call → Bool
  | .starting _ (.spawning _) => true
  | .starting _ .logging => true
  | .starting _ (.returning (.ok ())) => true
  | _ => false

theorem Call.keepsRoster_of_accepted (h : c.accepted = true) : c.keepsRoster = true := by
  unfold accepted at h
  split at h <;> first | rfl | cases h

/-- A start that returns had its workers spawned, or was refused; it changes the roster
no more. -/
theorem Pool.of_returned_started {result : Except PoolError Unit}
    (hstep : p.step t m = some (q, es)) (he : .returned (.started result) ∈ es) : ∃ count,
      (p.thread t).call = some (.starting count (.returning result)) ∧
      q = { p with rosterLock := none }.setCall t none ∧
      es = [.returned (.started result)] := by
  cases hc : (p.thread t).call with
  | none =>
    cases soloStep_of_step hc hstep with
    | begins => cases he
    | goesOn _ _ step => cases (step.frame hc).events _ he
  | some c =>
    cases callStep_of_step hc hstep with
    | @endStart count result' =>
      obtain rfl : result = result' := by simpa using he
      exact ⟨count, rfl, rfl, rfl⟩
    | _ => simp at he

theorem Reached.of_grants (hr : Reached n h p) (hstep : p.step t m = some (q, es))
    {count : Nat} (hg : Moment.Grants h ⟨t, m, es⟩ count) :
    (p.thread t).call = some (.starting count (.returning (.ok ()))) ∧
    q.roster = p.roster := by
  obtain ⟨count', hc, hq, _⟩ := of_returned_started hstep hg.1
  obtain ⟨r, hlast, hserves⟩ := hr.serves hc
  obtain rfl : r = .start count' := hserves
  obtain rfl : count' = count := by simpa using hlast.symm.trans hg.2
  exact ⟨hc, by rw [hq]; rfl⟩

/-- Workers that were started with success are in the roster until the pool is stopped,
and nobody starts workers after them. -/
structure StartedOnce (h : List (Moment J E)) (p : Pool J) : Prop where
  manned : Staffed h → p.roster ≠ [] ∨ p.ledger.shuttingDown = true
  only : ∀ u c, (p.thread u).call = some c → c.accepted = true → ¬ Staffed h

theorem StartedOnce.new (n : Nat) :
    StartedOnce ([] : List (Moment J E)) (Pool.new n) where
  manned := by
    rintro ⟨k, m, k', count, hk, _⟩
    simp at hk
  only u c hc := by cases hc

theorem StartedOnce.manned_step (hs : StartedOnce h p) (hr : Reached n h p)
    (hstep : p.step t m = some (q, es)) (hst : Staffed (h ++ [⟨t, m, es⟩])) :
    q.roster ≠ [] ∨ q.ledger.shuttingDown = true := by
  rcases staffed_concat.1 hst with hst | ⟨count, hgrants, hpos⟩
  · rcases hs.manned hst with hroster | hflag
    · cases hc : (p.thread t).call with
      | none =>
        rw [(soloGrip_of_step hc hstep).roster]
        exact .inl hroster
      | some c =>
        have hfits := hr.orderly.calls t c hc
        cases callStep_of_step hc hstep with
        | spawn => exact .inl (by simp [setCall, setThread])
        | collectNone | collect => exact .inr hfits.flag
        | _ => exact .inl hroster
    · exact .inr ((turns_of_step hstep).shuttingDown hflag)
  · obtain ⟨hc, hroster⟩ := hr.of_grants hstep hgrants
    obtain ⟨_, hlength⟩ := hr.listed.starts t _ hc
    rw [hroster]
    exact .inl (List.ne_nil_of_length_pos (hlength ▸ hpos))

theorem StartedOnce.only_step (hs : StartedOnce h p) (hr : Reached n h p)
    (hstep : p.step t m = some (q, es)) (hq : (q.thread u).call = some c)
    (ha : c.accepted = true) :
    ¬ Staffed (h ++ [⟨t, m, es⟩]) := by
  -- A start that succeeds right now gives the roster back, so none that was accepted is
  -- left.
  have silent (hkept : u = t ∨ (p.thread u).keepsRoster = true) {count : Nat} :
      ¬ Moment.Grants h ⟨t, m, es⟩ count := by
    intro hgrants
    obtain ⟨count', hc, hnow, _⟩ := of_returned_started hstep hgrants.1
    rcases hkept with rfl | hkept
    · rw [hnow, call_setCall] at hq
      cases hq
    · have hut : u = t := Option.some.inj
        ((hr.locked.kept u hkept).symm.trans
          (hr.locked.kept t (Thread.keepsRoster_of_call hc)))
      rw [hut, hnow, call_setCall] at hq
      cases hq
  rw [staffed_concat]
  rintro (hst | ⟨count, hgrants, _⟩)
  · by_cases hu : u = t
    · subst hu
      cases hc : (p.thread u).call with
      | none =>
        have hkeeps :=
          Call.keepsRoster_of_fresh ((soloGrip_of_step hc hstep).begun c hq).1
        cases hkeeps.symm.trans (Call.keepsRoster_of_accepted ha)
      | some d =>
        have next {x : Pool J} {d : Option Call} (hx : q = x.setCall u d) :
            d = some c := by
          rw [hx, call_setCall] at hq
          exact hq
        cases callStep_of_step hc hstep with
        | lockLedger | lockRoster =>
          obtain rfl := Option.some.inj (hc.symm.trans hq)
          exact hs.only u _ hc ha hst
        | accept _ why =>
          obtain ⟨hflag, hroster⟩ := of_startRefusal?_none why
          rcases hs.manned hst with hne | hset
          · exact hne hroster
          · cases hflag.symm.trans hset
        | spawn | complete | logStart => exact hs.only u _ hc rfl hst
        | configure | readBatchSize | countWorkers | measure | endStart | collectNone
        | endStop =>
          cases next rfl
        | _ =>
          obtain rfl := Option.some.inj (next rfl)
          cases ha
    · obtain ⟨o, _, ht⟩ := turns_of_step hstep
      exact hs.only u c ((ht.same Thread.call_roused rfl hu).symm.trans hq) ha hst
  · refine silent ?_ hgrants
    by_cases hu : u = t
    · exact .inl hu
    · obtain ⟨o, _, ht⟩ := turns_of_step hstep
      have hc := (ht.same Thread.call_roused rfl hu).symm.trans hq
      exact .inr ((Thread.keepsRoster_of_call hc).trans (Call.keepsRoster_of_accepted ha))

theorem Reached.startedOnce (hr : Reached n h p) : StartedOnce h p := by
  induction hr with
  | nil => exact .new n
  | snoc before last ih =>
    exact ⟨ih.manned_step before last, fun _ _ => ih.only_step before last⟩

/-- Of all starts of at least one worker, one succeeds at most. -/
theorem Reached.not_grants_twice {k k' : List (Moment J E)} {a b : Moment J E}
    {count count' : Nat} (hr : Reached n (k ++ a :: k' ++ [b]) p) (ha : a.Grants k count)
    (hpos : 0 < count) :
    ¬ b.Grants (k ++ a :: k') count' := by
  intro hb
  obtain ⟨t, m, es⟩ := b
  obtain ⟨q, hq, hstep⟩ := Run.of_concat hr
  obtain ⟨hc, _⟩ := Reached.of_grants hq hstep hb
  exact (Reached.startedOnce hq).only t _ hc rfl ⟨k, a, k', count, rfl, ha, hpos⟩

end CheckRounds
