import CheckRounds.Proofs.Pool.Lock
import CheckRounds.Proofs.WakeUp
/-!
The start and the stop of workers.

The flag is never taken back, and no worker falls asleep once it is set; so from the
call that follows the flag on no worker sleeps (`Pool.Alarmed`). `Pool.Orderly` says
what holds at the points of a call: a stop that collects the roster has given the alarm,
and whom it finds there, and waits for, was started as a worker.
-/

namespace CheckRounds

open Pool

variable {J E : Type} {n t u : Nat} {h : List (Moment J E)} {m : Move J E}
  {es : List (Event J E)} {p q : Pool J} {o : Upshot J E} {c : Call}

/-! ## Threads that others do not touch -/

/-- A thread that is awake and has something to do is not changed by the steps of
others. -/
theorem Turn.stays (ht : Turn p t q es o) (hu : u ≠ t)
    (ha : (p.thread u).isAsleep = false) (hn : p.thread u ≠ {}) :
    q.thread u = p.thread u := by
  rw [ht.others u hu]
  cases hw : o.wake with
  | nobody => rfl
  | everyone => exact Thread.roused_eq_self ha
  | one sleeper =>
    simp only [Wake.touch]
    split
    · exact Thread.roused_eq_self ha
    · rfl
  | newborn v =>
    have hfits := ht.fits
    rw [hw] at hfits
    simp only [Wake.touch]
    split
    · rename_i huv
      exact absurd (huv ▸ hfits) hn
    · rfl

/-! ## Workers -/

namespace Thread

/-- The thread was started as a worker: it is in the work loop, or has left it. -/
def IsWorker (th : Thread J) : Prop :=
  (∃ stage, th.duty = .looping .worker stage) ∨ th.duty = .finished

theorem isWorker_roused (th : Thread J) : th.roused.IsWorker ↔ th.IsWorker :=
  roused_iff (fun th role hd => by simp [IsWorker, hd]) th

theorem IsWorker.role {th : Thread J} (h : th.IsWorker) {role : Role}
    {stage : LoopStage J} (hd : th.duty = .looping role stage) : role = .worker := by
  rcases h with ⟨stage', h⟩ | h
  · exact (Duty.looping.inj (hd.symm.trans h)).1
  · cases hd.symm.trans h

theorem IsWorker.of_duty {th th' : Thread J} (h : th.IsWorker) (hd : th'.duty = th.duty) :
    th'.IsWorker := by
  unfold IsWorker
  rwa [hd]

end Thread

/-- A worker stays one. -/
theorem Shift.isWorker {l : Ledger J} {s : Option Nat} {th : Thread J}
    (h : Shift t l s th m o) (hw : th.IsWorker) : o.thread.IsWorker := by
  cases h with
  | still | clerical | configure | flag | spawn | retell => exact hw
  | alarm => exact (Thread.isWorker_roused th).2 hw
  | enter hd | take hd | sleep hd | stir hd | wake hd | work hd | finish hd | report hd
  | announce hd =>
    obtain rfl := hw.role hd
    exact .inl ⟨_, rfl⟩
  | quit => exact .inl ⟨_, rfl⟩
  | leave hd =>
    obtain rfl := hw.role hd
    exact .inr rfl
  | drain hd => cases hw.role hd
  | seize _ hd => rcases hd with hd | hd <;> simp [Thread.IsWorker, hd] at hw
  | opened hd | submit hd | push hd | answer hd | conclude hd | reset hd | release hd
  | knock hd | rouseAll hd | rouseOne hd | engage hd | dismiss hd =>
    simp [Thread.IsWorker, hd] at hw

theorem Turns.isWorker (hs : Turns p t m q es) (hw : (p.thread u).IsWorker) :
    (q.thread u).IsWorker := by
  obtain ⟨o, hs, ht⟩ := hs
  by_cases hu : u = t
  · subst hu
    rw [ht.self]
    exact hs.isWorker hw
  · rw [ht.others u hu]
    cases o.wake with
    | nobody => exact hw
    | everyone => exact (Thread.isWorker_roused _).2 hw
    | one sleeper =>
      simp only [Wake.touch]
      split
      · exact (Thread.isWorker_roused _).2 hw
      · exact hw
    | newborn v =>
      simp only [Wake.touch]
      split
      · exact .inl ⟨_, rfl⟩
      · exact hw

/-! ## The flag and the alarm -/

theorem Turns.shuttingDown (hs : Turns p t m q es) (hf : p.ledger.shuttingDown = true) :
    q.ledger.shuttingDown = true := by
  obtain ⟨o, hs, ht⟩ := hs
  rw [ht.ledger]
  by_contra hq
  have hbefore := hs.shuttingDown (Bool.eq_false_iff.2 hq)
  simp [hf] at hbefore

/-- The flag is set, and no worker sleeps. -/
structure Pool.Alarmed (p : Pool J) : Prop where
  flag : p.ledger.shuttingDown = true
  awake : ∀ u, (p.thread u).duty ≠ .looping .worker .asleep

/-- A worker falls asleep only if it did not see the flag. -/
theorem Shift.worker_asleep {l : Ledger J} {s : Option Nat} {th : Thread J}
    (h : Shift t l s th m o) (hd : o.thread.duty = .looping .worker .asleep) :
    th.duty = .looping .worker .asleep ∨ l.shuttingDown = false := by
  cases h with
  | still | clerical | configure | flag | spawn | retell => exact .inl hd
  | alarm => exact absurd hd Thread.asleep_of_roused
  | sleep _ stays =>
    obtain ⟨rfl, _⟩ := Duty.looping.inj hd
    exact .inr (stays rfl)
  | report =>
    obtain ⟨_, hstage⟩ := Duty.looping.inj hd
    split at hstage <;> cases hstage
  | @leave role => cases role <;> cases hd
  | _ => cases hd

theorem Pool.Alarmed.turns (ha : p.Alarmed) (hs : Turns p t m q es) : q.Alarmed := by
  refine ⟨hs.shuttingDown ha.flag, fun u hd => ?_⟩
  obtain ⟨o, hs, ht⟩ := hs
  by_cases hu : u = t
  · subst hu
    rw [ht.self] at hd
    rcases hs.worker_asleep hd with hbefore | hflag
    · exact ha.awake u hbefore
    · simp [ha.flag] at hflag
  · exact ha.awake u (ht.asleep_before hu hd).1

theorem Turns.alarmed (hs : Turns p t m q es) (he : .alarmed ∈ es)
    (hf : p.ledger.shuttingDown = true) :
    q.Alarmed := by
  refine ⟨hs.shuttingDown hf, fun u hd => ?_⟩
  obtain ⟨o, hs, ht⟩ := hs
  rw [ht.events] at he
  have hwake : o.wake = .everyone := by
    cases hs with
    | still _ hc | clerical _ _ _ hc => exact absurd (hc _ he) (by simp [Event.clerical])
    | alarm => rfl
    | _ => simp at he
  by_cases hu : u = t
  · subst hu
    rw [ht.self] at hd
    exact hs.not_asleep_of_everyone hwake .worker hd
  · exact (ht.asleep_before hu hd).2 hwake

/-! ## What holds at the points of a call -/

def Call.Fits (p : Pool J) : Call → Prop
  | .starting count (.spawning i) => i ≤ count
  | .stopping .rousing => p.ledger.shuttingDown = true
  | .stopping .collecting => p.Alarmed
  | .stopping (.joining ws _) => p.Alarmed ∧ ∀ w ∈ ws, (p.thread w).IsWorker
  | _ => True

theorem Call.Fits.turns (hf : c.Fits p) (hs : Turns p t m q es) : c.Fits q := by
  cases c with
  | starting count stage => cases stage <;> exact hf
  | stopping stage =>
    cases stage with
    | roster | flagging => trivial
    | rousing => exact hs.shuttingDown hf
    | collecting => exact Alarmed.turns hf hs
    | joining ws count => exact ⟨hf.1.turns hs, fun w hw => hs.isWorker (hf.2 w hw)⟩
  | _ => trivial

theorem Call.fits_of_fresh (h : c.fresh = true) : c.Fits p := by
  cases c with
  | starting count stage => cases stage <;> trivial
  | stopping stage => cases stage <;> trivial
  | _ => trivial

/-- The thread may make a call: it is a client, or runs a job. -/
def Thread.MayCall (th : Thread J) : Prop :=
  th.duty = .client ∨ ∃ role x, th.duty = .looping role (.executing x) ∧ x.inJob = true

theorem Thread.mayCall_of_atLiberty {th : Thread J} (h : th.atLiberty = true) :
    th.MayCall := by
  unfold atLiberty at h
  split at h
  case h_1 hd => exact .inl hd
  case h_2 hd => exact .inr ⟨_, _, hd, h⟩
  case h_3 => cases h

theorem Thread.MayCall.not_asleep {th : Thread J} (h : th.MayCall) :
    th.isAsleep = false := by
  rcases h with hd | ⟨role, x, hd, _⟩ <;> simp [isAsleep, hd]

structure Pool.Orderly (p : Pool J) : Prop where
  calls : ∀ u c, (p.thread u).call = some c → c.Fits p
  callers : ∀ u c, (p.thread u).call = some c → (p.thread u).MayCall
  roster : ∀ w ∈ p.roster, (p.thread w).IsWorker

theorem Pool.Orderly.new (n : Nat) : (Pool.new n : Pool J).Orderly where
  calls u c hc := by cases hc
  callers u c hc := by cases hc
  roster w hw := by cases hw

theorem Pool.Orderly.call_eq_none (ho : p.Orderly) (hd : ¬ (p.thread t).MayCall) :
    (p.thread t).call = none := by
  by_contra hsome
  obtain ⟨c, hc⟩ := Option.ne_none_iff_exists'.1 hsome
  exact hd (ho.callers t c hc)

/-- Who neither is a client nor runs a job makes no call: its steps belong to its duty. -/
theorem Pool.Orderly.dutyStep_of_step (ho : p.Orderly) (hmay : ¬ (p.thread t).MayCall)
    {d : Duty J} (hd : (p.thread t).duty = d) (h : p.step t m = some (q, es)) :
    DutyStep p t d m q es := by
  cases soloStep_of_step (ho.call_eq_none hmay) h with
  | begins _ liberty => exact absurd (Thread.mayCall_of_atLiberty liberty) hmay
  | goesOn _ hduty step =>
    cases hduty.symm.trans hd
    exact step

/-- A step of a call changes nothing else about its thread. -/
theorem CallStep.thread (hc : (p.thread t).call = some c)
    (ha : (p.thread t).isAsleep = false) (h : CallStep p t c m q es) :
    ∃ c', q.thread t = (p.thread t).withCall c' := by
  have kept {r : Pool J} {d : Option Call} (hr : r.thread t = p.thread t) :
      ∃ c', (r.setCall t d).thread t = (p.thread t).withCall c' :=
    ⟨d, by rw [setCall, thread_setThread_self, hr]⟩
  cases h with
  | lockLedger | lockRoster =>
    refine ⟨some c, ?_⟩
    rw [← hc]
    rfl
  | @spawn count i w _ fresh =>
    -- The new worker is not the thread that starts it, which has a call under way.
    have hne : t ≠ w := by
      rintro rfl
      simp [Pool.thread, fresh] at hc
    exact kept (thread_setThread_of_ne _ hne _)
  | alarm => exact kept ((thread_rouseAll _ _).trans (Thread.roused_eq_self ha))
  | _ => exact kept rfl

/-- The call that is under way after a step fits the state that the step leads to. -/
theorem CallStep.fits (hp : p.Orderly) (hc : (p.thread t).call = some c)
    (hs : Turns p t m q es) (h : CallStep p t c m q es) {c' : Call}
    (hq : (q.thread t).call = some c') : c'.Fits q := by
  have hf := hp.calls t c hc
  have next {r : Pool J} {d : Option Call} (hr : q = r.setCall t d) : d = some c' := by
    rw [hr, call_setCall] at hq
    exact hq
  cases h with
  | lockLedger | lockRoster =>
    obtain rfl := Option.some.inj (hc.symm.trans hq)
    exact hf.turns hs
  | accept =>
    obtain rfl := Option.some.inj (next rfl)
    exact Nat.zero_le _
  | spawn more =>
    obtain rfl := Option.some.inj (next rfl)
    exact more
  | flag =>
    obtain rfl := Option.some.inj (next rfl)
    rfl
  | alarm =>
    obtain rfl := Option.some.inj (next rfl)
    exact hs.alarmed (by simp) hf
  | collect =>
    obtain rfl := Option.some.inj (next rfl)
    exact ⟨Alarmed.turns hf hs, fun w hw => hs.isWorker (hp.roster w hw)⟩
  | join =>
    obtain rfl := Option.some.inj (next rfl)
    obtain ⟨halarmed, hworkers⟩ := hf.turns hs
    exact ⟨halarmed, fun w hw => hworkers w (List.mem_cons_of_mem _ hw)⟩
  | configure | readBatchSize | countWorkers | measure | endStart | collectNone
  | endStop =>
    cases next rfl
  | count | enterStart | refuse | complete | logStart | enterStop =>
    obtain rfl := Option.some.inj (next rfl)
    trivial

theorem CallStep.roster (hp : p.Orderly) (hc : (p.thread t).call = some c)
    (hs : Turns p t m q es) (h : CallStep p t c m q es) :
    ∀ w ∈ q.roster, (q.thread w).IsWorker := by
  have kept (hr : q.roster = p.roster) : ∀ w ∈ q.roster, (q.thread w).IsWorker := by
    intro w hw
    rw [hr] at hw
    exact hs.isWorker (hp.roster w hw)
  cases h with
  | @spawn count i v _ fresh =>
    intro w hw
    rcases List.mem_append.1 hw with hw | hw
    · exact hs.isWorker (hp.roster w hw)
    · obtain rfl := List.mem_singleton.1 hw
      have hne : w ≠ t := by
        rintro rfl
        simp [Pool.thread, fresh] at hc
      rw [setCall, thread_setThread_of_ne _ hne, thread_setThread_self]
      exact .inl ⟨_, rfl⟩
  | collectNone | collect =>
    intro w hw
    cases hw
  | _ => exact kept rfl

/-- Who makes a call may make one, and others do not touch it. -/
theorem Pool.Orderly.mayCall_step (hp : p.Orderly) (hstep : p.step t m = some (q, es))
    (hq : (q.thread u).call = some c) : (q.thread u).MayCall := by
  obtain ⟨o, hs, ht⟩ := turns_of_step hstep
  by_cases hu : u = t
  · subst hu
    cases hc : (p.thread u).call with
    | none =>
      obtain ⟨_, hliberty, hduty⟩ := (soloGrip_of_step hc hstep).begun c hq
      rw [Thread.MayCall, hduty]
      exact Thread.mayCall_of_atLiberty hliberty
    | some d =>
      have hmay := hp.callers u d hc
      obtain ⟨c', hthread⟩ := (callStep_of_step hc hstep).thread hc hmay.not_asleep
      rw [hthread]
      exact hmay
  · have hc : (p.thread u).call = some c := by
      rw [← ht.same Thread.call_roused rfl hu, hq]
    have hmay := hp.callers u c hc
    have hn : p.thread u ≠ {} := by
      intro hn
      rw [hn] at hc
      cases hc
    rw [ht.stays hu hmay.not_asleep hn]
    exact hmay

theorem Pool.Orderly.fits_step (hp : p.Orderly) (hstep : p.step t m = some (q, es))
    (hq : (q.thread u).call = some c) : c.Fits q := by
  have hturns := turns_of_step hstep
  by_cases hu : u = t
  · subst hu
    cases hc : (p.thread u).call with
    | none => exact Call.fits_of_fresh ((soloGrip_of_step hc hstep).begun c hq).1
    | some d => exact (callStep_of_step hc hstep).fits hp hc hturns hq
  · obtain ⟨o, _, ht⟩ := hturns
    rw [ht.same Thread.call_roused rfl hu] at hq
    exact (hp.calls u c hq).turns (turns_of_step hstep)

theorem Pool.Orderly.step (hp : p.Orderly) (hstep : p.step t m = some (q, es)) :
    q.Orderly where
  calls _ _ := hp.fits_step hstep
  callers _ _ := hp.mayCall_step hstep
  roster := by
    have hturns := turns_of_step hstep
    cases hc : (p.thread t).call with
    | none =>
      intro w hw
      rw [(soloGrip_of_step hc hstep).roster] at hw
      exact hturns.isWorker (hp.roster w hw)
    | some c => exact (callStep_of_step hc hstep).roster hp hc hturns

theorem Reached.orderly (hr : Reached n h p) : p.Orderly := by
  induction hr with
  | nil => exact .new n
  | snoc _ last ih => exact ih.step last

/-! ## Whom a stop has collected -/

theorem Turns.finished (hs : Turns p t m q es) (hd : (p.thread u).duty = .finished) :
    (q.thread u).duty = .finished := by
  obtain ⟨o, hs, ht⟩ := hs
  by_cases hu : u = t
  · subst hu
    rw [ht.self]
    cases hs with
    | still | clerical | configure | flag | spawn | retell => exact hd
    | alarm =>
      rw [Thread.duty_withCall, Thread.roused_eq_self (by simp [Thread.isAsleep, hd]), hd]
    | seize _ hd' => rcases hd' with hd' | hd' <;> cases hd.symm.trans hd'
    | opened hd' | submit hd' | push hd' | answer hd' | conclude hd' | reset hd'
    | release hd' | knock hd' | rouseAll hd' | rouseOne hd' | engage hd' | dismiss hd'
    | enter hd' | quit hd' | take hd' | drain hd' | sleep hd' | stir hd' | wake hd'
    | work hd' | finish hd' | report hd' | announce hd' | leave hd' =>
      cases hd.symm.trans hd'
  · have hn : p.thread u ≠ {} := by
      intro hn
      rw [hn] at hd
      cases hd
    rw [ht.stays hu (by simp [Thread.isAsleep, hd]) hn, hd]

/-- The stop takes the roster as it finds it. If nobody is there it is over, else it
waits. -/
theorem Pool.collected_of_step {ws : List Nat} (h : p.step t m = some (q, es))
    (he : .collected ws ∈ es) :
    ws = [] ∨ (∃ count, (q.thread t).call = some (.stopping (.joining ws count))) ∧
      ∀ r, .returned r ∉ es := by
  cases hc : (p.thread t).call with
  | none => exact absurd he ((soloGrip_of_step hc h).collected ws)
  | some c =>
    cases callStep_of_step hc h with
    | collectNone =>
      left
      simpa using he
    | collect =>
      obtain rfl : ws = p.roster := by simpa using he
      exact .inr ⟨⟨_, call_setCall _ _ _⟩, by simp⟩
    | _ => simp at he

theorem mem_events_concat {k : List (Moment J E)} {e : Event J E} :
    (t, e) ∈ events (k ++ [⟨u, m, es⟩]) ↔ (t, e) ∈ events k ∨ t = u ∧ e ∈ es := by
  rw [events_append, List.mem_append]
  simp only [events, List.flatMap_singleton, List.mem_map, Prod.mk.injEq]
  refine or_congr_right ⟨?_, ?_⟩
  · rintro ⟨e', he, rfl, rfl⟩
    exact ⟨rfl, he⟩
  · rintro ⟨rfl, he⟩
    exact ⟨e, he, rfl, rfl⟩

/-- In this part of a history, `t` waits for those of the threads that have not
finished, and its stop has not returned. -/
def Awaits (t : Nat) (ws : List Nat) (k : List (Moment J E)) (p : Pool J) : Prop :=
  (∃ left count, (p.thread t).call = some (.stopping (.joining left count)) ∧
    ∀ w ∈ ws, (p.thread w).duty = .finished ∨ w ∈ left) ∧
  ∀ r, (t, .returned r) ∉ events k

theorem Awaits.step {ws : List Nat} {k : List (Moment J E)} (ha : Awaits t ws k p)
    (hstep : p.step u m = some (q, es)) :
    (∀ w ∈ ws, (q.thread w).duty = .finished) ∨ Awaits t ws (k ++ [⟨u, m, es⟩]) q := by
  obtain ⟨⟨left, count, hc, hleft⟩, hsilent⟩ := ha
  have hturns := turns_of_step hstep
  have hfinished {w : Nat} (hw : (p.thread w).duty = .finished) :
      (q.thread w).duty = .finished :=
    hturns.finished hw
  by_cases hu : t = u
  · subst hu
    cases callStep_of_step hc hstep with
    | lockLedger need => cases left <;> cases need
    | lockRoster need => cases left <;> cases need
    | @join w rest _ hw =>
      refine .inr ⟨⟨rest, count, call_setCall _ _ _, fun v hv => ?_⟩,
        fun r hmem => (mem_events_concat.1 hmem).elim (hsilent r) (by simp)⟩
      rcases hleft v hv with hd | hmem
      · exact .inl (hfinished hd)
      · rcases List.mem_cons.1 hmem with rfl | hmem
        · exact .inl (hfinished hw)
        · exact .inr hmem
    | endStop => exact .inl fun w hw => hfinished ((hleft w hw).resolve_right (by simp))
  · obtain ⟨o, _, ht⟩ := hturns
    refine .inr ⟨⟨left, count, ?_, fun w hw => (hleft w hw).imp_left hfinished⟩,
      fun r hmem => (mem_events_concat.1 hmem).elim (hsilent r) fun hthis => hu hthis.1⟩
    rw [ht.same Thread.call_roused rfl hu, hc]

/-- When a stop returns, all workers that it found in the roster have finished. -/
theorem Reached.finished_of_returned {k k' : List (Moment J E)} {ws : List Nat}
    (hr : Reached n (k ++ ⟨t, m, es⟩ :: k') p) (hc : .collected ws ∈ es)
    (hret : ∃ r, (t, .returned r) ∈ events (⟨t, m, es⟩ :: k')) :
    ∀ w ∈ ws, (p.thread w).duty = .finished := by
  have hsplit : k ++ ⟨t, m, es⟩ :: k' = (k ++ [⟨t, m, es⟩]) ++ k' := by simp
  rw [Reached, hsplit] at hr
  obtain ⟨q, hq, hrest⟩ := Run.of_append hr
  obtain ⟨q₀, _, hstep⟩ := Run.of_concat hq
  have hwait : (∀ w ∈ ws, (p.thread w).duty = .finished) ∨
      Awaits t ws (⟨t, m, es⟩ :: k') p := by
    rcases collected_of_step hstep hc with rfl | ⟨⟨count, hcall⟩, hsilent⟩
    · exact .inl (by simp)
    -- Along the rest of the history the wait goes on, or all of them have finished.
    clear hr hret hsplit
    induction hrest with
    | nil =>
      refine .inr ⟨⟨ws, count, hcall, fun w hw => .inr hw⟩, fun r hmem => ?_⟩
      exact hsilent r (((mem_events_concat (k := [])).1 hmem).resolve_left (by simp)).2
    | snoc _ last ih =>
      rcases ih with hall | ha
      · exact .inl fun w hw => (turns_of_step last).finished (hall w hw)
      · exact ha.step last
  rcases hwait with hall | ha
  · exact hall
  · obtain ⟨r, hmem⟩ := hret
    exact absurd hmem (ha.2 r)

end CheckRounds
