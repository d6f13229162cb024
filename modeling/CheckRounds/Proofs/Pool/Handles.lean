import CheckRounds.Proofs.Pool.Roster
/-!
The workers of a pool, from their start until somebody has waited for them.

Each worker that was started is in the roster, or one stop has taken it from there; that
stop waits for it, once. When the last call of a pool that is given up returns, all
workers have been waited for.
-/

namespace CheckRounds

open Pool

variable {J E : Type} {n t u : Nat} {h k : List (Moment J E)} {m : Move J E}
  {es : List (Event J E)} {p q : Pool J} {o : Upshot J E} {c : Call}

namespace Event

def spawnedWorkers : Event J E → List Nat
  | .spawned w _ => [w]
  | _ => []

def collectedWorkers : Event J E → List Nat
  | .collected ws => ws
  | _ => []

def joinedWorkers : Event J E → List Nat
  | .joined w => [w]
  | _ => []

end Event

def workersSpawned (h : List (Moment J E)) : List Nat := collect Event.spawnedWorkers h

/-- The workers that stops have taken from the roster. -/
def workersCollected (h : List (Moment J E)) : List Nat :=
  collect Event.collectedWorkers h

/-- The workers that somebody waited for and that have finished. -/
def workersJoined (h : List (Moment J E)) : List Nat := collect Event.joinedWorkers h

/-- The workers that the call of the thread has yet to wait for. -/
def Thread.toJoin (th : Thread J) : List Nat := th.call.elim [] Call.waitsFor

theorem Thread.toJoin_of_call {th : Thread J} (hc : th.call = some c) :
    th.toJoin = c.waitsFor := by
  simp [toJoin, hc]

theorem Thread.toJoin_of_none {th : Thread J} (hc : th.call = none) : th.toJoin = [] := by
  simp [toJoin, hc]

theorem Thread.steady_toJoin (f : Nat → Nat) :
    Steady (J := J) fun th => total f th.toJoin where
  idle := rfl
  newborn := rfl
  roused th := by simp [toJoin]

/-! ## One step -/

theorem DutyFrame.nothing {α : Type} {f : Event J E → List α} (hd : DutyFrame p t q es)
    (hf : ∀ e : Event J E, e.ofCall = false → f e = []) : es.flatMap f = [] :=
  List.flatMap_eq_nil_iff.2 fun e he => hf e (hd.events e he)

theorem Event.spawnedWorkers_of_duty (e : Event J E) (h : e.ofCall = false) :
    e.spawnedWorkers = [] := by
  cases e with
  | spawned => cases h
  | _ => rfl

theorem Event.collectedWorkers_of_duty (e : Event J E) (h : e.ofCall = false) :
    e.collectedWorkers = [] := by
  cases e with
  | collected => cases h
  | _ => rfl

theorem Event.joinedWorkers_of_duty (e : Event J E) (h : e.ofCall = false) :
    e.joinedWorkers = [] := by
  cases e with
  | joined => cases h
  | _ => rfl

/-- What a step spawns goes to the end of the roster, and what it collects was the
roster. -/
theorem Pool.roster_of_step (hstep : p.step t m = some (q, es)) :
    p.roster ++ es.flatMap Event.spawnedWorkers = es.flatMap Event.collectedWorkers ++
      q.roster := by
  cases hc : (p.thread t).call with
  | none =>
    rw [(soloGrip_of_step hc hstep).roster]
    cases soloStep_of_step hc hstep with
    | begins => simp
    | goesOn _ _ step =>
      have duty := step.frame hc
      rw [duty.nothing Event.spawnedWorkers_of_duty,
        duty.nothing Event.collectedWorkers_of_duty]
      simp
  | some c =>
    cases callStep_of_step hc hstep with
    | alarm =>
      simp [Event.spawnedWorkers, Event.collectedWorkers, setCall, setThread, rouseAll]
    | collectNone nobody =>
      simp [Event.spawnedWorkers, Event.collectedWorkers, setCall, setThread, nobody]
    | _ =>
      simp [Event.spawnedWorkers, Event.collectedWorkers, setCall, setThread, leaveLedger]

/-- A start that has come to the spawning of workers has seen that the flag is not set. -/
theorem Pool.Listed.none_spawned (hl : p.Listed) (hf : p.ledger.shuttingDown = true)
    (hstep : p.step t m = some (q, es)) : es.flatMap Event.spawnedWorkers = [] := by
  cases hc : (p.thread t).call with
  | none =>
    cases soloStep_of_step hc hstep with
    | begins => rfl
    | goesOn _ _ step => exact (step.frame hc).nothing Event.spawnedWorkers_of_duty
  | some c =>
    cases callStep_of_step hc hstep with
    | spawn => cases (hl.starts t _ hc).1.symm.trans hf
    | _ => rfl

/-- What a step collects its thread has to wait for, and what it joins it had to. -/
theorem Pool.toJoin_of_step (hstep : p.step t m = some (q, es)) :
    (p.thread t).toJoin ++ es.flatMap Event.collectedWorkers =
      es.flatMap Event.joinedWorkers ++ (q.thread t).toJoin := by
  cases hc : (p.thread t).call with
  | none =>
    rw [Thread.toJoin_of_none hc]
    cases soloStep_of_step hc hstep with
    | begins r =>
      rw [Thread.toJoin_of_call (call_setCall _ _ _)]
      cases r <;> rfl
    | goesOn _ _ step =>
      have duty := step.frame hc
      rw [Thread.toJoin_of_none duty.call, duty.nothing Event.collectedWorkers_of_duty,
        duty.nothing Event.joinedWorkers_of_duty]
  | some c =>
    rw [Thread.toJoin_of_call hc]
    cases callStep_of_step hc hstep with
    | lockLedger | lockRoster =>
      have hkept : (p.thread t).toJoin = c.waitsFor := Thread.toJoin_of_call hc
      exact (List.append_nil _).trans hkept.symm
    | configure | readBatchSize | countWorkers | measure | endStart | collectNone
    | endStop =>
      rw [Thread.toJoin_of_none (call_setCall _ _ _)]
      simp [Call.waitsFor, Event.collectedWorkers, Event.joinedWorkers]
    | _ =>
      rw [Thread.toJoin_of_call (call_setCall _ _ _)]
      simp [Call.waitsFor, Event.collectedWorkers, Event.joinedWorkers]

/-! ## Who is a worker -/

theorem Wake.touch_cases (w : Wake) {u : Nat} (hn : w ≠ .newborn u) (th : Thread J) :
    w.touch u th = th ∨ w.touch u th = th.roused := by
  cases w with
  | nobody => exact .inl rfl
  | everyone => exact .inr rfl
  | one sleeper => exact (ite_eq_or_eq ..).symm
  | newborn v => exact .inl (if_neg fun huv => hn (by rw [huv]))

/-- A thread that has just started as a worker was spawned in this step. -/
theorem Shift.spawned_of_newborn {l : Ledger J} {s : Option Nat} {th : Thread J}
    (h : Shift t l s th m o) {v : Nat} (hw : o.wake = .newborn v) :
    v ∈ o.events.flatMap Event.spawnedWorkers := by
  cases h with
  | spawn =>
    obtain rfl := Wake.newborn.inj hw
    exact List.mem_cons_self
  | _ => cases hw

theorem Thread.worker_of_roused {th : Thread J} {stage : LoopStage J}
    (h : th.roused.duty = .looping .worker stage) :
    ∃ stage, th.duty = .looping .worker stage := by
  unfold roused at h
  split at h
  · rename_i hd
    obtain ⟨rfl, _⟩ := Duty.looping.inj h
    exact ⟨_, hd⟩
  · exact ⟨_, h⟩

theorem Shift.worker_before {l : Ledger J} {s : Option Nat} {th : Thread J}
    (h : Shift t l s th m o) {stage : LoopStage J}
    (hd : o.thread.duty = .looping .worker stage) :
    ∃ stage, th.duty = .looping .worker stage := by
  cases h with
  | still | clerical | configure | flag | spawn | retell => exact ⟨_, hd⟩
  | alarm => exact Thread.worker_of_roused hd
  | quit hin => exact ⟨_, hin⟩
  | enter hin | take hin | sleep hin | stir hin | wake hin | work hin | finish hin
  | report hin | announce hin =>
    obtain ⟨rfl, _⟩ := Duty.looping.inj hd
    exact ⟨_, hin⟩
  | @leave role v hin =>
    cases role with
    | worker => exact ⟨_, hin⟩
    | owner why => cases hd
  | _ => cases hd

/-- Who is a worker was one before, unless it has just been spawned. -/
theorem Turns.worker_before (hs : Turns p t m q es) {stage : LoopStage J}
    (hd : (q.thread u).duty = .looping .worker stage) :
    (∃ stage, (p.thread u).duty = .looping .worker stage) ∨
    u ∈ es.flatMap Event.spawnedWorkers := by
  obtain ⟨o, hs, ht⟩ := hs
  by_cases hu : u = t
  · subst hu
    exact .inl (hs.worker_before (ht.self ▸ hd))
  · rw [ht.others u hu] at hd
    by_cases hn : o.wake = .newborn u
    · exact .inr (ht.events ▸ hs.spawned_of_newborn hn)
    · rcases o.wake.touch_cases hn (p.thread u) with hsame | hroused
      · exact .inl ⟨stage, hsame ▸ hd⟩
      · exact .inl (Thread.worker_of_roused (hroused ▸ hd))

/-! ## Runs -/

/-- Where the workers are that were started. -/
structure Enrolled (h : List (Moment J E)) (p : Pool J) : Prop where
  place : workersSpawned h = workersCollected h ++ p.roster
  distinct : (workersSpawned h).Nodup
  workers : ∀ w ∈ workersSpawned h, (p.thread w).IsWorker
  toJoin : ∀ u, workersJoined (ofThread u h) ++ (p.thread u).toJoin =
    workersCollected (ofThread u h)
  weights : ∀ f,
    total f (workersJoined h) + total (fun th => total f th.toJoin) p.threads =
    total f (workersCollected h)

theorem Enrolled.new (n : Nat) : Enrolled ([] : List (Moment J E)) (Pool.new n) where
  place := rfl
  distinct := List.nodup_nil
  workers w hw := by cases hw
  toJoin u := rfl
  weights f := rfl

/-- A worker starts as a thread that did nothing so far. -/
theorem Pool.newborn_of_step (hstep : p.step t m = some (q, es)) {w : Nat}
    (hw : w ∈ es.flatMap Event.spawnedWorkers) :
    es.flatMap Event.spawnedWorkers = [w] ∧ p.thread w = {} ∧ (q.thread w).IsWorker := by
  cases hc : (p.thread t).call with
  | none =>
    cases soloStep_of_step hc hstep with
    | begins => cases hw
    | goesOn _ _ step =>
      have duty := step.frame hc
      rw [duty.nothing Event.spawnedWorkers_of_duty] at hw
      cases hw
  | some c =>
    cases callStep_of_step hc hstep with
    | @spawn count i v _ fresh =>
      obtain rfl : w = v := by simpa [Event.spawnedWorkers] using hw
      have hne : w ≠ t := by
        rintro rfl
        simp [Pool.thread, fresh] at hc
      refine ⟨rfl, by simp [Pool.thread, fresh], ?_⟩
      rw [setCall, thread_setThread_of_ne _ hne, thread_setThread_self]
      exact .inl ⟨_, rfl⟩
    | _ => simp [Event.spawnedWorkers] at hw

theorem Enrolled.step (he : Enrolled h p) (hstep : p.step t m = some (q, es)) :
    Enrolled (h ++ [⟨t, m, es⟩]) q := by
  obtain ⟨o, _, ht⟩ := turns_of_step hstep
  have hroster := roster_of_step hstep
  have hjoin := toJoin_of_step hstep
  have hspawned : workersSpawned (h ++ [⟨t, m, es⟩]) =
      workersSpawned h ++ es.flatMap Event.spawnedWorkers := by simp [workersSpawned]
  refine ⟨?_, ?_, ?_, fun u => ?_, fun f => ?_⟩
  · rw [hspawned, he.place, List.append_assoc, hroster]
    simp [workersCollected]
  · rw [hspawned]
    refine List.nodup_append.2 ⟨he.distinct, ?_, fun w hold v hnew hsame => ?_⟩
    · cases hnew : es.flatMap Event.spawnedWorkers with
      | nil => exact List.nodup_nil
      | cons w ws =>
        have hw : w ∈ es.flatMap Event.spawnedWorkers := hnew ▸ List.mem_cons_self
        rw [← hnew, (newborn_of_step hstep hw).1]
        simp
    · -- Who was started before is a worker, and a new worker has not been anything.
      have hworker := he.workers w hold
      rw [hsame, (newborn_of_step hstep hnew).2.1] at hworker
      rcases hworker with ⟨_, hd⟩ | hd <;> cases hd
  · intro w hw
    rw [hspawned] at hw
    rcases List.mem_append.1 hw with hw | hw
    · exact (turns_of_step hstep).isWorker (he.workers w hw)
    · exact (newborn_of_step hstep hw).2.2
  · have hbefore := he.toJoin u
    simp only [workersJoined, workersCollected] at hbefore ⊢
    rw [ofThread_append, ofThread_singleton]
    split
    · rename_i hu
      obtain rfl : t = u := hu
      simp only [collect_append, collect_singleton]
      rw [← hbefore, List.append_assoc, List.append_assoc, hjoin]
    · rename_i hu
      rw [List.append_nil, ← hbefore, Thread.toJoin, Thread.toJoin,
        ht.same Thread.call_roused rfl fun hut => hu hut.symm]
  · have hbefore := he.weights f
    have hthreads := ht.total_threads (Thread.steady_toJoin f)
    have hweight := congrArg (total f) hjoin
    rw [total_append, total_append] at hweight
    simp only [workersJoined, workersCollected, collect_append, collect_singleton,
      total_append]
      at hbefore ⊢
    rw [← ht.self] at hthreads
    omega

theorem Reached.enrolled (hr : Reached n h p) : Enrolled h p := by
  induction hr with
  | nil => exact .new n
  | snoc _ last ih => exact ih.step last

/-- Nobody is waited for twice. -/
theorem Enrolled.nodup_joined (he : Enrolled h p) : (workersJoined h).Nodup := by
  have hcollected : (workersCollected h).Nodup := by
    refine he.distinct.sublist ?_
    rw [he.place]
    exact List.sublist_append_left _ _
  have hsub : (workersJoined h).Subperm (workersCollected h) :=
    subperm_of_total fun f => by
      have hweights := he.weights f
      omega
  obtain ⟨l, hperm, hl⟩ := hsub
  exact hperm.nodup_iff.1 (hcollected.sublist hl)

/-! ## The end of a pool -/

theorem Pool.call_of_unusedBut (ha : p.unusedBut t = true) (hu : u ≠ t) :
    (p.thread u).call = none := by
  unfold unusedBut at ha
  simp only [Bool.and_eq_true, List.all_eq_true] at ha
  unfold thread
  rw [List.getD_eq_getElem?_getD]
  cases hget : p.threads[u]? with
  | none => rfl
  | some th =>
    have hmem : (th, u) ∈ p.threads.zipIdx := by
      rw [List.mem_zipIdx_iff_getElem?]
      exact hget
    have hall := ha.2 (th, u) hmem
    simp only [Bool.or_eq_true, beq_iff_eq, hu, false_or, Bool.and_eq_true,
      Option.isNone_iff_eq_none] at hall
    exact hall.1

/-- Thread `t` has given the pool up, and in this part of the history it stops the
workers for the last time. -/
structure GivenUp (t : Nat) (k : List (Moment J E)) (p : Pool J) : Prop where
  retired : p.retired = true
  others : ∀ u, u ≠ t → (p.thread u).call = none
  stops : ∀ c, (p.thread t).call = some c → ∃ stage, c = .stopping stage
  flag : (p.thread t).call = none → p.ledger.shuttingDown = true
  returned : ∀ r, (t, .returned r) ∈ events k → (p.thread t).call = none

theorem Pool.givenUp_of_retire (hstep : p.step t (.request .retire) = some (q, es)) :
    GivenUp t [⟨t, .request .retire, es⟩] q := by
  cases hc : (p.thread t).call with
  | some c =>
    rw [step_request_of_call hc] at hstep
    cases hstep
  | none =>
    cases soloStep_of_step hc hstep with
    | goesOn other => exact absurd rfl (other .retire)
    | begins _ _ _ alone =>
      have hcall :=
        call_setCall (p := { p with retired := true }) t (some (Request.call .retire))
      refine ⟨rfl, fun u hu => ?_, fun c hq => ?_, fun hq => ?_,
        fun r hr => by simp [events] at hr⟩
      · rw [setCall, thread_setThread_of_ne _ hu]
        exact call_of_unusedBut (alone rfl) hu
      · exact ⟨_, (Option.some.inj (hcall.symm.trans hq)).symm⟩
      · cases hcall.symm.trans hq

/-- The last steps of a stop find the flag set. -/
theorem CallStep.of_stopping {stage : StopStage}
    (h : CallStep p t (.stopping stage) m q es) (ho : p.Orderly)
    (hc : (p.thread t).call = some (.stopping stage)) :
    (∃ next, (q.thread t).call = some (.stopping next)) ∧ (∀ r, .returned r ∉ es) ∨
      (q.thread t).call = none ∧ q.ledger.shuttingDown = true := by
  have hfits := ho.calls t _ hc
  cases h with
  | lockLedger | lockRoster => exact .inl ⟨⟨stage, hc⟩, by simp⟩
  | collectNone => exact .inr ⟨call_setCall _ _ _, hfits.flag⟩
  | endStop => exact .inr ⟨call_setCall _ _ _, hfits.1.flag⟩
  | enterStop | flag | alarm | collect | join =>
    exact .inl ⟨⟨_, call_setCall _ _ _⟩, by simp⟩

theorem GivenUp.step (hg : GivenUp t k p) (ho : p.Orderly)
    (hstep : p.step u m = some (q, es)) :
    GivenUp t (k ++ [⟨u, m, es⟩]) q := by
  have hturns := turns_of_step hstep
  -- Nobody makes a request any more, so a thread without a call stays without one.
  have idle (hc : (p.thread u).call = none) : DutyFrame p u q es := by
    cases soloStep_of_step hc hstep with
    | begins _ _ inUse => cases inUse.symm.trans hg.retired
    | goesOn _ _ step => exact step.frame hc
  have untouched {v : Nat} (hv : v ≠ u) : (q.thread v).call = (p.thread v).call := by
    obtain ⟨o, _, ht⟩ := hturns
    exact ht.same Thread.call_roused rfl hv
  have others (v : Nat) (hv : v ≠ t) : (q.thread v).call = none := by
    by_cases hvu : v = u
    · subst hvu
      exact (idle (hg.others v hv)).call
    · rw [untouched hvu, hg.others v hv]
  by_cases hu : u = t
  · subst hu
    cases hc : (p.thread u).call with
    | none =>
      have hduty := idle hc
      refine ⟨hduty.retired.trans hg.retired, others, fun c hq => ?_, fun _ => ?_,
        fun _ _ => hduty.call⟩
      · cases hduty.call.symm.trans hq
      · exact hturns.shuttingDown (hg.flag hc)
    | some c =>
      obtain ⟨stage, rfl⟩ := hg.stops c hc
      have hcall := callStep_of_step hc hstep
      have hretired : q.retired = p.retired := by cases hcall <;> rfl
      rcases hcall.of_stopping ho hc with ⟨⟨next, hnext⟩, hsilent⟩ | ⟨hover, hflag⟩
      · refine ⟨hretired.trans hg.retired, others, fun c hq => ?_, fun hq => ?_,
         fun r hmem => ?_⟩
        · exact ⟨next, Option.some.inj (hq.symm.trans hnext)⟩
        · cases hq.symm.trans hnext
        · have hold := (mem_events_concat.1 hmem).resolve_right fun hthis =>
            hsilent r hthis.2
          cases hc.symm.trans (hg.returned r hold)
      · refine ⟨hretired.trans hg.retired, others, fun c hq => ?_, fun _ => hflag,
         fun _ _ => hover⟩
        cases hover.symm.trans hq
  · have hduty := idle (hg.others u hu)
    have hcall := untouched (Ne.symm hu)
    refine ⟨hduty.retired.trans hg.retired, others,
      fun c hq => hg.stops c (hcall.symm.trans hq),
      fun hq => hturns.shuttingDown (hg.flag (hcall.symm.trans hq)), fun r hmem => ?_⟩
    rw [hcall]
    exact hg.returned r ((mem_events_concat.1 hmem).resolve_right
      fun hthis => hu hthis.1.symm)

/-- When the last call of a pool returns, each worker that was ever started has been
waited for. -/
theorem Reached.perm_joined {k k' : List (Moment J E)} {r : Reply}
    (hr : Reached n (k ++ ⟨t, .request .retire, es⟩ :: k') p)
    (hret : (t, .returned r) ∈ events (⟨t, .request .retire, es⟩ :: k')) :
    (workersJoined (k ++ ⟨t, .request .retire, es⟩ :: k')).Perm
      (workersSpawned (k ++ ⟨t, .request .retire, es⟩ :: k')) := by
  have hsplit :
      k ++ ⟨t, .request .retire, es⟩ :: k' = (k ++ [⟨t, .request .retire, es⟩]) ++
      k' := by simp
  have hgiven : GivenUp t (⟨t, .request .retire, es⟩ :: k') p := by
    rw [Reached, hsplit] at hr
    obtain ⟨q, hq, hrest⟩ := Run.of_append hr
    obtain ⟨_, _, hstep⟩ := Run.of_concat hq
    have hstart := givenUp_of_retire hstep
    clear hr hret hsplit
    induction hrest with
    | nil => exact hstart
    | snoc before last ih => exact ih.step (Reached.orderly (Run.trans hq before)) last
  have hcalls (u : Nat) : (p.thread u).call = none := by
    by_cases hu : u = t
    · rw [hu, hgiven.returned r hret]
    · exact hgiven.others u hu
  have hfree : p.rosterLock = none := by
    cases hlock : p.rosterLock with
    | none => rfl
    | some v =>
      rcases hr.locked.roster v hlock with hkeeps | hneed
      · simp [Thread.keepsRoster, hcalls v] at hkeeps
      · rw [Thread.need_of_duty (hcalls v)] at hneed
        exact absurd hneed (Duty.need_ne_roster _)
  have henrolled := hr.enrolled
  rw [henrolled.place, hr.roster_eq_nil hfree (hgiven.flag (hcalls t)), List.append_nil]
  apply perm_of_total
  intro f
  have hnobody : total (fun th => total f th.toJoin) p.threads = 0 := by
    apply total_eq_zero
    intro th hth
    obtain ⟨u, rfl⟩ := exists_thread_of_mem hth
    rw [Thread.toJoin_of_none (hcalls u)]
    rfl
  rw [← henrolled.weights f, hnobody, Nat.add_zero]

end CheckRounds
