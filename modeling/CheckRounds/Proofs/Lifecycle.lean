import CheckRounds.Proofs.Pool.Handles
import CheckRounds.Proofs.Shutdown
/-!
The life of the workers of a pool, however calls that start and stop them overlap.

The flag is never unset, and once it is set the roster is empty whenever nobody has it.
Of all starts of at least one worker, one succeeds at most. Each worker is in the roster
or was taken from it by one stop, which waits for it once. A start that is refused
changes nothing (`Reached.refused`).
-/

namespace CheckRounds

open Pool

variable {J E : Type} {n t u : Nat} {h k : List (Moment J E)} {m : Move J E}
  {es : List (Event J E)} {p q r : Pool J} {c : Call}

/-! ## Starts that are refused -/

/-- The pool apart from its two locks and from the call of `t`. -/
def Pool.aside (p : Pool J) (t : Nat) : Pool J :=
  { p with ledgerLock := none, rosterLock := none }.setCall t none

theorem Pool.setCall_setCall (p : Pool J) (t : Nat) (c d : Option Call) :
    (p.setCall t c).setCall t d = p.setCall t d := by
  have hself : (p.setCall t c).thread t = (p.thread t).withCall c :=
    thread_setThread_self _ _ _
  rw [setCall, hself]
  simp [setCall, setThread, Thread.withCall]

theorem Pool.aside_setCall (p : Pool J) (t : Nat) (c : Option Call) :
    (p.setCall t c).aside t = p.aside t :=
  setCall_setCall { p with ledgerLock := none, rosterLock := none } t c none

/-- The start has not been accepted. -/
def Call.declining : Call → Bool
  | .starting _ .roster => true
  | .starting _ .checking => true
  | .starting _ (.returning (.error _)) => true
  | _ => false

theorem Run.unique (hq : Run p h q) (hr : Run p h r) : q = r := by
  induction hq generalizing r with
  | nil =>
    generalize hk : [] = k at hr
    cases hr with
    | nil => rfl
    | snoc => simp at hk
  | snoc _ last ih =>
    obtain ⟨_, hbefore, hstep⟩ := Run.of_concat hr
    obtain rfl := ih hbefore
    exact (Prod.mk.inj (Option.some.inj (last.symm.trans hstep))).1

/-- Each step that `t` has made since leaves the pool as it was, apart from the locks
and the call of `t`. -/
def LeavesAlone (t : Nat) (p : Pool J) (k : List (Moment J E)) : Prop :=
  ∀ k₁ m es k₂ x y, k = k₁ ++ ⟨t, m, es⟩ :: k₂ → Run p k₁ x → x.step t m = some (y, es) →
    y.aside t = x.aside t

theorem LeavesAlone.nil : LeavesAlone t p ([] : List (Moment J E)) := by
  intro k₁ m es k₂ x y hk
  simp at hk

theorem LeavesAlone.concat (hk : LeavesAlone t p k) (hq : Run p k q)
    (hstep : q.step u m = some (r, es)) (hsame : u = t → r.aside t = q.aside t) :
    LeavesAlone t p (k ++ [⟨u, m, es⟩]) := by
  intro k₁ m' es' k₂ x y hsplit hx hy
  rcases List.eq_nil_or_concat k₂ with rfl | ⟨l, b, rfl⟩
  · obtain ⟨rfl, hlast⟩ := List.append_inj' hsplit rfl
    cases hlast
    obtain rfl := hx.unique hq
    obtain rfl := (Prod.mk.inj (Option.some.inj (hy.symm.trans hstep))).1
    exact hsame rfl
  · rw [List.concat_eq_append, ← List.cons_append, ← List.append_assoc] at hsplit
    obtain ⟨rfl, _⟩ := List.append_inj' hsplit rfl
    exact hk k₁ m' es' l x y rfl hx hy

/-- A start that was not accepted takes and gives locks; then it is accepted, or it
returns its error. -/
theorem CallStep.of_declining (h : CallStep p t c m q es) (hd : c.declining = true)
    (hc : (p.thread t).call = some c) :
    (∃ c', (q.thread t).call = some c' ∧ c'.accepted = true) ∨
    q.aside t = p.aside t ∧ ((q.thread t).call = none ∨
      es = [] ∧ ∃ c', (q.thread t).call = some c' ∧ c'.declining = true) := by
  cases h with
  | lockLedger | lockRoster => exact .inr ⟨rfl, .inr ⟨rfl, c, hc, hd⟩⟩
  | enterStart | refuse =>
    exact .inr ⟨aside_setCall _ _ _, .inr ⟨rfl, _, call_setCall _ _ _, rfl⟩⟩
  | accept => exact .inl ⟨_, call_setCall _ _ _, rfl⟩
  | endStart => exact .inr ⟨aside_setCall _ _ _, .inl (call_setCall _ _ _)⟩
  | _ => cases hd

theorem CallStep.of_accepted (h : CallStep p t c m q es) (ha : c.accepted = true)
    (hc : (p.thread t).call = some c) :
    (q.thread t).call = none ∨ ∃ c', (q.thread t).call = some c' ∧
    c'.accepted = true := by
  cases h with
  | lockLedger | lockRoster => exact .inr ⟨c, hc, ha⟩
  | spawn | complete | logStart => exact .inr ⟨_, call_setCall _ _ _, rfl⟩
  | endStart => exact .inl (call_setCall _ _ _)
  | _ => cases ha

/-- Since its last request, for a start, `t` has done nothing but take and give locks,
or the start was accepted, or it is over. -/
def Declines (t : Nat) (p : Pool J) (k : List (Moment J E)) (q : Pool J) : Prop :=
  (q.thread t).call = none ∨ ∃ c, (q.thread t).call = some c ∧ (c.accepted = true ∨
    c.declining = true ∧ (ofThread t k).flatMap Moment.events = [] ∧ LeavesAlone t p k)

theorem Declines.request {count : Nat}
    (hstep : p.step t (.request (.start count)) = some (q, es)) :
    Declines t p [⟨t, .request (.start count), es⟩] q := by
  cases hc : (p.thread t).call with
  | some c =>
    rw [step_request_of_call hc] at hstep
    cases hstep
  | none =>
    have hsolo := soloStep_of_step hc hstep
    cases hsolo with
    | goesOn other => exact absurd rfl (other (.start count))
    | begins _ _ inUse =>
      refine .inr ⟨_, call_setCall _ _ _, .inr ⟨rfl, by simp [ofThread], ?_⟩⟩
      refine LeavesAlone.concat (k := []) .nil (.nil p) hstep fun _ => ?_
      rw [aside_setCall]
      have hp : { p with retired := decide (Request.start count = .retire) } = p := by
        rw [decide_eq_false (by simp), ← inUse]
      rw [hp]

theorem Declines.step (hd : Declines t p k q) (hk : Run p k q)
    (hstep : q.step u m = some (r, es)) (hm : u = t → ∀ a, m ≠ .request a) :
    Declines t p (k ++ [⟨u, m, es⟩]) r := by
  by_cases hu : u = t
  · subst hu
    rcases hd with hnone | ⟨c, hc, haccepted | ⟨hdeclining, hsilent, halone⟩⟩
    · cases soloStep_of_step hnone hstep with
      | begins a => exact absurd rfl (hm rfl a)
      | goesOn _ _ step => exact .inl (step.frame hnone).call
    · rcases (callStep_of_step hc hstep).of_accepted haccepted hc
       with hover | ⟨c', hc', ha'⟩
      · exact .inl hover
      · exact .inr ⟨c', hc', .inl ha'⟩
    · rcases (callStep_of_step hc hstep).of_declining hdeclining hc with
        ⟨c', hc', ha'⟩ | ⟨hsame, hover | ⟨rfl, c', hc', hd'⟩⟩
      · exact .inr ⟨c', hc', .inl ha'⟩
      · exact .inl hover
      · refine .inr ⟨c', hc', .inr ⟨hd', ?_, halone.concat hk hstep fun _ => hsame⟩⟩
        simp [ofThread_singleton, hsilent]
  · obtain ⟨o, _, ht⟩ := turns_of_step hstep
    have hcall : (r.thread t).call = (q.thread t).call :=
      ht.same Thread.call_roused rfl (Ne.symm hu)
    rw [Declines, hcall]
    refine hd.imp_right fun ⟨c, hc, hstate⟩ => ⟨c, hc, hstate.imp_right ?_⟩
    rintro ⟨hdeclining, hsilent, halone⟩
    refine ⟨hdeclining, ?_, halone.concat hk hstep fun h => absurd h hu⟩
    simp [ofThread_singleton, hu, hsilent]

/-- A start that returns an error has spawned and logged nothing and left the pool as it
was. The pool is stopped, or there are workers in the roster, as many as the error
tells. -/
theorem Reached.refused {count : Nat} {es₀ : List (Event J E)} {e : PoolError}
    (hr : Reached n (h ++ (⟨t, .request (.start count), es₀⟩ :: k ++ [⟨t, m, es⟩])) p)
    (hk : ∀ a ∈ k, a.thread = t → a.move.request? = none)
    (he : .returned (.started (.error e)) ∈ es) :
    (e = .shutDown ∧ p.ledger.shuttingDown = true ∨
      e = .alreadyStarted p.roster.length ∧ 0 < p.roster.length) ∧
    (ofThread t (⟨t, .request (.start count), es₀⟩ :: k ++ [⟨t, m, es⟩])).flatMap
      Moment.events =
      [.returned (.started (.error e))] ∧
    ∃ q, Reached n h q ∧
      LeavesAlone t q (⟨t, .request (.start count), es₀⟩ :: k ++ [⟨t, m, es⟩]) := by
  obtain ⟨q, hq, hrun⟩ := Run.of_append hr
  obtain ⟨x, hx, hlast⟩ := Run.of_concat hrun
  obtain ⟨y, hy, hrest⟩ := Run.of_append (h := [⟨t, .request (.start count), es₀⟩]) hx
  obtain ⟨z, hz, hfirst⟩ := Run.of_concat (h := []) hy
  obtain rfl := hz.unique (.nil q)
  have hdeclines : Declines t z (⟨t, .request (.start count), es₀⟩ :: k) x := by
    have hstart := Declines.request hfirst
    clear hr hrun hlast hx
    induction hrest with
    | nil => exact hstart
    | @snoc _ _ l v b _ before last ih =>
      refine (ih fun a ha => hk a (List.mem_append_left _ ha)).step
        (hy.trans before) last ?_
      rintro hv a rfl
      exact absurd (hk _ (List.mem_append_right _ List.mem_cons_self) hv)
        (by simp [Move.request?])
  obtain ⟨count', hc, hp, hes⟩ := of_returned_started hlast he
  have hx' : Reached n (h ++ ⟨t, .request (.start count), es₀⟩ :: k) x := Run.trans hq hx
  have hwhy := of_startRefusal?_some (hx'.listed.starts t _ hc)
  rcases hdeclines with hnone | ⟨c, hc', hstate⟩
  · cases hc.symm.trans hnone
  · obtain rfl := Option.some.inj (hc.symm.trans hc')
    obtain ⟨_, hsilent, halone⟩ := hstate.resolve_left (by simp [Call.accepted])
    refine ⟨?_, ?_, z, hq, halone.concat hx hlast fun _ => ?_⟩
    · rw [hp]
      exact hwhy
    · rw [ofThread_append, List.flatMap_append, hsilent, hes]
      simp [ofThread]
    · rw [hp, aside_setCall]
      rfl

/-! ## Starts of no worker -/

/-- Thread `t` may make a request, and nothing stands in the way of a start. -/
structure Pool.Startable (p : Pool J) (t : Nat) : Prop where
  liberty : (p.thread t).atLiberty = true
  inUse : p.retired = false
  ledgerLock : p.ledgerLock = none
  rosterLock : p.rosterLock = none
  flag : p.ledger.shuttingDown = false
  roster : p.roster = []

/-- The pool with `t` at this point of a start of no worker, and with these locks. -/
def Pool.atStart (p : Pool J) (t : Nat) (roster ledger : Option Nat)
    (stage : StartStage) : Pool J :=
  { p with rosterLock := roster, ledgerLock := ledger }.setCall t
    (some (.starting 0 stage))

theorem Pool.call_atStart {roster ledger : Option Nat} {stage : StartStage} :
    ((p.atStart t roster ledger stage).thread t).call = some (.starting 0 stage) :=
  call_setCall _ _ _

/-- From one point of a start to the next one. -/
theorem Pool.step_atStart {roster roster' ledger ledger' : Option Nat}
    {stage stage' : StartStage}
    (h : CallStep (p.atStart t roster ledger stage) t (.starting 0 stage)
      (.advance : Move J E)
      ({ p.atStart t roster ledger stage with
        rosterLock := roster', ledgerLock := ledger' }.setCall t
          (some (.starting 0 stage'))) es) :
    (p.atStart t roster ledger stage).step t (.advance : Move J E) =
      some (p.atStart t roster' ledger' stage', es) := by
  rw [show p.atStart t roster' ledger' stage' = _ from
    (setCall_setCall { p with rosterLock := roster', ledgerLock := ledger' } t _ _).symm]
  exact h.step call_atStart

/-- A start of no worker takes both locks, logs, and leaves the pool as it was. -/
theorem Pool.Startable.start_zero (hp : p.Startable t) :
    ∃ k : List (Moment J E), Run p k (p.aside t) ∧
      k.filterMap (·.move.request?) = [.start 0] ∧
      k.flatMap Moment.events = [.started 0 p.ledger.batchSize,
        .returned (.started (.ok ()))] := by
  have request : p.step t (.request (.start 0) : Move J E) =
      some (p.atStart t none none .roster, []) := by
    have hidle : { p with rosterLock := none, ledgerLock := none } =
        { p with retired := false } := by
      obtain ⟨_, _, _, _, _, _, _, _⟩ := p
      cases hp.rosterLock
      cases hp.ledgerLock
      cases hp.inUse
      rfl
    rw [atStart, hidle]
    exact (SoloStep.begins (.start 0) hp.liberty hp.inUse (by simp)).step
      (Thread.call_of_atLiberty hp.liberty)
  have seize : (p.atStart t none none .roster).step t (.advance : Move J E) =
      some (p.atStart t (some t) none .checking, []) := step_atStart (.enterStart rfl)
  have lock (stage : StartStage) (hs : stage.need = .ledger) :
      (p.atStart t (some t) none stage).step t (.advance : Move J E) =
        some (p.atStart t (some t) (some t) stage, []) := by
    have hneed : (Call.starting 0 stage).need = .ledger := hs
    exact (CallStep.lockLedger hneed rfl).step call_atStart
  have check : (p.atStart t (some t) (some t) .checking).step t (.advance : Move J E) =
      some (p.atStart t (some t) none (.spawning 0), []) := by
    have hrefusal : (p.atStart t (some t) (some t) .checking).startRefusal? = none := by
      simp [startRefusal?, atStart, setCall, setThread, hp.flag, hp.roster]
    exact step_atStart (.accept rfl hrefusal)
  have spawned : (p.atStart t (some t) none (.spawning 0)).step t (.advance : Move J E) =
      some (p.atStart t (some t) none .logging, []) := step_atStart .complete
  have log : (p.atStart t (some t) (some t) .logging).step t (.advance : Move J E) =
      some (p.atStart t (some t) none (.returning (.ok ())),
        [.started 0 p.ledger.batchSize]) :=
    step_atStart (.logStart rfl)
  have ends :
      (p.atStart t (some t) none (.returning (.ok ()))).step t (.advance : Move J E) =
      some (p.aside t, [.returned (.started (.ok ()))]) := by
    rw [aside, ← setCall_setCall _ _ (some (.starting 0 (.returning (.ok ()))))]
    exact CallStep.endStart.step call_atStart
  refine ⟨_, .cons request <| .cons seize <| .cons (lock .checking rfl) <| .cons check <|
    .cons spawned <|
    .cons (lock .logging rfl) <| .cons log <| .cons ends <| .nil _, rfl, rfl⟩

theorem Pool.Startable.aside (hp : p.Startable t) : (p.aside t).Startable t where
  liberty := by
    have hself : (p.aside t).thread t = (p.thread t).withCall none :=
      thread_setThread_self _ _ _
    have hsame : (p.thread t).withCall none = p.thread t := by
      rw [← Thread.call_of_atLiberty hp.liberty]
      rfl
    rw [hself, hsame]
    exact hp.liberty
  inUse := hp.inUse
  ledgerLock := rfl
  rosterLock := rfl
  flag := hp.flag
  roster := hp.roster

/-- Nothing is used up by a start of no worker. -/
theorem Pool.Startable.starts_zero (hp : p.Startable t) (i : Nat) :
    ∃ (k : List (Moment J E)) (q : Pool J), Run p k q ∧ q.aside t = p.aside t ∧
      k.filterMap (·.move.request?) = List.replicate i (.start 0) ∧
      k.flatMap Moment.events =
        (List.replicate i [.started 0 p.ledger.batchSize,
          .returned (.started (.ok ()))]).flatten := by
  induction i generalizing p with
  | zero => exact ⟨[], p, .nil p, rfl, rfl, rfl⟩
  | succ i ih =>
    obtain ⟨k, hk, hrequests, hevents⟩ := hp.start_zero (E := E)
    obtain ⟨k', q, hk', haside, hrequests', hevents'⟩ := ih hp.aside
    refine ⟨k ++ k', q, hk.trans hk', haside.trans (aside_setCall _ _ _), ?_, ?_⟩
    · rw [List.filterMap_append, hrequests, hrequests']
      rfl
    · rw [List.flatMap_append, hevents, hevents']
      rfl

/-! ## The life of the workers -/

/-- However the calls of a pool overlap: the flag stays set; when nobody has the roster
and the flag is set, the roster is empty; after a start of at least one worker no start
succeeds, while starts of no worker use nothing up; each worker that was started is in
the roster or was collected by one stop, which waits for it once, and all of them were
waited for when the last call of the pool returns; a start that is refused spawns, logs
and changes nothing, and tells why. -/
theorem Reached.workers_accounted (hr : Reached n h p) :
    (∀ (k : List (Moment J E)) q, Run p k q → p.ledger.shuttingDown = true →
      q.ledger.shuttingDown = true) ∧
    (p.rosterLock = none → p.ledger.shuttingDown = true → p.roster = []) ∧
    (∀ k a k' b k'' count count', h = k ++ a :: k' ++ b :: k'' → a.Grants k count →
      0 < count → ¬ b.Grants (k ++ a :: k') count') ∧
    (∀ t i, p.Startable t → ∃ (k : List (Moment J E)) (q : Pool J), Run p k q ∧
      q.aside t = p.aside t ∧
      k.filterMap (·.move.request?) = List.replicate i (.start 0) ∧
      k.flatMap Moment.events =
        (List.replicate i [.started 0 p.ledger.batchSize,
          .returned (.started (.ok ()))]).flatten) ∧
    (workersSpawned h = workersCollected h ++ p.roster ∧ (workersSpawned h).Nodup) ∧
    ((∀ u, workersJoined (ofThread u h) ++ (p.thread u).toJoin =
      workersCollected (ofThread u h)) ∧ (workersJoined h).Nodup) ∧
    (∀ k t es k' r, h = k ++ ⟨t, .request .retire, es⟩ :: k' →
      (t, .returned r) ∈ events (⟨t, .request .retire, es⟩ :: k') →
      (workersJoined h).Perm (workersSpawned h)) ∧
    (∀ k t count es₀ k' m es e,
      h = k ++ (⟨t, .request (.start count), es₀⟩ :: k' ++ [⟨t, m, es⟩]) →
      (∀ a ∈ k', a.thread = t → a.move.request? = none) →
      .returned (.started (.error e)) ∈ es →
      (e = .shutDown ∧ p.ledger.shuttingDown = true ∨
        e = .alreadyStarted p.roster.length ∧ 0 < p.roster.length) ∧
      (ofThread t (⟨t, .request (.start count), es₀⟩ :: k' ++ [⟨t, m, es⟩])).flatMap
        Moment.events =
        [.returned (.started (.error e))] ∧
      ∃ q, Reached n k q ∧
        LeavesAlone t q (⟨t, .request (.start count), es₀⟩ :: k' ++ [⟨t, m, es⟩])) := by
  have henrolled := hr.enrolled
  refine ⟨fun k q hk => hk.shuttingDown, hr.roster_eq_nil, ?_,
    fun t i hp => hp.starts_zero i,
    ⟨henrolled.place, henrolled.distinct⟩,
    ⟨henrolled.toJoin, henrolled.nodup_joined⟩, ?_, ?_⟩
  · rintro k a k' b k'' count count' rfl ha hpos
    rw [Reached,
      show k ++ a :: k' ++ b :: k'' = (k ++ a :: k' ++ [b]) ++ k'' by simp] at hr
    obtain ⟨q, hq, _⟩ := Run.of_append hr
    exact Reached.not_grants_twice hq ha hpos
  · rintro k t es k' r rfl hret
    exact hr.perm_joined hret
  · rintro k t count es₀ k' m es e rfl hk he
    exact hr.refused hk he

/-- Two workers are started after a start of none; then another thread starts in vain. -/
def lateStart : List (Nat × Move Nat Unit) :=
  List.flatten [[(0, .request (.start 0))], onward 0 7, [(0, .request (.start 2))],
    onward 0 3,
    [(0, .spawn 1), (0, .spawn 2)], onward 0 4, [(3, .request (.start 1))], onward 3 4]

def lateStartRun : Pool Nat × List (Moment Nat Unit) := played 1 lateStart

/-- The workers are stopped, and the pool is given up. -/
def workingLife : List (Nat × Move Nat Unit) :=
  List.flatten [lateStart, [(3, .request .stop)], onward 3 5, onward 1 6, onward 2 6,
    onward 3 3, [(0, .request .retire)], onward 0 5]

def workingLifeRun : Pool Nat × List (Moment Nat Unit) := played 1 workingLife

theorem workingLife_accounted :
    Reached 1 lateStartRun.2 lateStartRun.1 ∧ lateStartRun.1.roster = [1, 2] ∧
    (∃ q, Reached 1 (lateStartRun.2.take 18) q ∧
      LeavesAlone 3 q (lateStartRun.2.drop 18)) ∧
    Reached 1 workingLifeRun.2 workingLifeRun.1 ∧ workingLifeRun.1.roster = [] ∧
    (workersJoined workingLifeRun.2).Perm [1, 2] := by
  have hlate : Reached 1 lateStartRun.2 lateStartRun.1 := .of_played (by decide +kernel)
  have hlife : Reached 1 workingLifeRun.2 workingLifeRun.1 :=
    .of_played (by decide +kernel)
  obtain ⟨_, _, _, _, _, _, _, hrefused⟩ := Reached.workers_accounted hlate
  obtain ⟨_, hempty, _, _, _, _, hlast, _⟩ := Reached.workers_accounted hlife
  have hwait : ∀ a ∈ (lateStartRun.2.drop 19).take 3, a.thread = 3 →
      a.move.request? = none := by
    intro a ha _
    obtain rfl : a = ⟨3, .advance, []⟩ := by
      have hall : (lateStartRun.2.drop 19).take 3 = List.replicate 3 ⟨3, .advance, []⟩ :=
        rfl
      rw [hall] at ha
      exact List.eq_of_mem_replicate ha
    rfl
  obtain ⟨_, _, halone⟩ :=
    hrefused (lateStartRun.2.take 18) 3 1 [] _ .advance _ (.alreadyStarted 2) rfl
    hwait List.mem_cons_self
  exact ⟨hlate, rfl, halone, hlife, hempty rfl rfl,
    hlast (workingLifeRun.2.take 44) 0 [] (workingLifeRun.2.drop 45) .done rfl
      (List.mem_of_getElem? (i := 3) rfl)⟩

end CheckRounds
