import CheckRounds.Proofs.Pool.Stop
/-!
What a thread needs is enough for it to go on, and each step of a call brings it nearer
to its end.

`Pool.CanGoOn` says that the current operation of a thread can take its next step. Code
that is not the pool's, such as a client or a job, has no such step. `callRank` counts
the steps of a call that are left, the wait for workers aside.
-/

namespace CheckRounds

open Pool

variable {J E : Type} {t u : Nat} {m : Move J E} {es : List (Event J E)} {p q : Pool J}
  {call : Call}

/-! ## Who can go on -/

/-- A step that the current operation of a thread takes by itself. Requests, the deeds
of a job and awakenings without cause are none. -/
def Move.automatic : Move J E → Bool
  | .advance => true
  | .rouse _ => true
  | .spawn _ => true
  | .work .proceed => true
  | _ => false

def Pool.CanGoOn (E : Type) (p : Pool J) (t : Nat) : Prop :=
  ∃ m : Move J E, m.automatic = true ∧ (p.step t m).isSome = true

/-- Thread `t` has what it needs. -/
def Need.Met (p : Pool J) (t : Nat) : Need → Prop
  | .nothing => True
  | .ledger => p.ledgerLock = none ∨ p.ledgerLock = some t
  | .freeLedger => p.ledgerLock = none
  | .roster => p.rosterLock = none ∨ p.rosterLock = some t
  | .freeRoster => p.rosterLock = none
  | .freeSlot => p.slot = none
  | .finish w => (p.thread w).duty = .finished
  | .impulse => False

theorem CallStep.canGoOn (h : CallStep p t call m q es)
    (hc : (p.thread t).call = some call) (hm : m.automatic = true) : p.CanGoOn E t :=
  ⟨m, hm, by rw [h.step hc]; rfl⟩

theorem DutyStep.canGoOn {d : Duty J} (h : DutyStep p t d m q es)
    (hc : (p.thread t).call = none) (hd : (p.thread t).duty = d)
    (hm : m.automatic = true) :
    p.CanGoOn E t :=
  ⟨m, hm, by rw [h.step hc hd]; rfl⟩

namespace Pool

theorem canGoOn_of_starting {count : Nat} {stage : StartStage}
    (hc : (p.thread t).call = some (.starting count stage))
    (hf : (Call.starting count stage).Fits p) (hm : stage.need.Met p t)
    (mine : stage.need = .ledger → p.ledgerLock = some t) :
    p.CanGoOn E t := by
  cases stage with
  | roster => exact (CallStep.enterStart hm).canGoOn hc rfl
  | checking =>
    cases hr : p.startRefusal? with
    | none => exact (CallStep.accept (mine rfl) hr).canGoOn hc rfl
    | some e => exact (CallStep.refuse (mine rfl) hr).canGoOn hc rfl
  | spawning i =>
    have hle : i ≤ count := hf
    rcases Nat.lt_or_eq_of_le hle with hlt | rfl
    · exact (CallStep.spawn hlt (Nat.le_refl p.threads.length)).canGoOn hc rfl
    · exact CallStep.complete.canGoOn hc rfl
  | logging => exact (CallStep.logStart (mine rfl)).canGoOn hc rfl
  | returning result => exact CallStep.endStart.canGoOn hc rfl

theorem canGoOn_of_stopping {stage : StopStage}
    (hc : (p.thread t).call = some (.stopping stage)) (hm : stage.need.Met p t)
    (mine : stage.need = .ledger → p.ledgerLock = some t) : p.CanGoOn E t := by
  cases stage with
  | roster => exact (CallStep.enterStop hm).canGoOn hc rfl
  | flagging => exact (CallStep.flag (mine rfl)).canGoOn hc rfl
  | rousing => exact CallStep.alarm.canGoOn hc rfl
  | collecting =>
    by_cases hnobody : p.roster = []
    · exact (CallStep.collectNone hnobody).canGoOn hc rfl
    · exact (CallStep.collect hnobody).canGoOn hc rfl
  | joining ws count =>
    cases ws with
    | nil => exact CallStep.endStop.canGoOn hc rfl
    | cons w ws => exact (CallStep.join hm).canGoOn hc rfl

theorem canGoOn_of_call (hc : (p.thread t).call = some call) (hf : call.Fits p)
    (hm : call.need.Met p t) : p.CanGoOn E t := by
  -- A lock that is free is taken first; after that, the lock that is needed is at hand.
  by_cases hfree : call.need = .ledger ∧ p.ledgerLock = none
  · exact (CallStep.lockLedger hfree.1 hfree.2).canGoOn hc rfl
  by_cases hopen : call.need = .roster ∧ p.rosterLock = none
  · exact (CallStep.lockRoster hopen.1 hopen.2).canGoOn hc rfl
  have mine (hn : call.need = .ledger) : p.ledgerLock = some t := by
    rw [hn] at hm
    exact hm.resolve_left fun h => hfree ⟨hn, h⟩
  have roster (hn : call.need = .roster) : p.rosterLock = some t := by
    rw [hn] at hm
    exact hm.resolve_left fun h => hopen ⟨hn, h⟩
  cases call with
  | configuring => exact (CallStep.configure (mine rfl)).canGoOn hc rfl
  | readingBatchSize => exact (CallStep.readBatchSize (mine rfl)).canGoOn hc rfl
  | countingWorkers => exact (CallStep.countWorkers (roster rfl)).canGoOn hc rfl
  | measuring workers =>
    cases workers with
    | none => exact (CallStep.count (roster rfl)).canGoOn hc rfl
    | some workers => exact (CallStep.measure (mine rfl)).canGoOn hc rfl
  | starting count stage => exact canGoOn_of_starting hc hf hm mine
  | stopping stage => exact canGoOn_of_stopping hc hm mine

theorem canGoOn_of_executing {role : Role} {x : Execution J}
    (hc : (p.thread t).call = none)
    (hd : (p.thread t).duty = .looping role (.executing x)) (hx : x.inJob = false) :
    p.CanGoOn E t := by
  cases hp : x.phase with
  | between =>
    cases hr : x.rest with
    | nil =>
      have hfinished : x.finished = true := by simp [Execution.finished, hp, hr]
      exact (DutyStep.finish hfinished).canGoOn hc hd rfl
    | cons j rest =>
      obtain ⟨y, e, hstep⟩ : ∃ y e, x.step (.proceed : Deed E) = some (y, e) := by
        simp [Execution.step, hp, hr]
      exact (DutyStep.work hstep).canGoOn hc hd rfl
  | crashed payload =>
    obtain ⟨y, e, hstep⟩ : ∃ y e, x.step (.proceed : Deed E) = some (y, e) := by
      simp [Execution.step, hp]
    exact (DutyStep.work hstep).canGoOn hc hd rfl
  | calling | releasing => simp [Execution.inJob, Execution.current?, hp] at hx

/-- Some sleeper can be roused, or nobody sleeps. -/
theorem canGoOn_of_rousing (hc : (p.thread t).call = none)
    (hd : (p.thread t).duty = .rousing false) : p.CanGoOn E t := by
  by_cases hsleeper : ∃ u, (p.thread u).isAsleep = true
  · obtain ⟨u, hu⟩ := hsleeper
    exact (DutyStep.rouseOne hu).canGoOn hc hd rfl
  · have hnobody : p.nobodyAsleep = true := by
      refine List.all_eq_true.2 fun th hth => ?_
      obtain ⟨u, rfl⟩ := exists_thread_of_mem hth
      simpa using fun hu => hsleeper ⟨u, hu⟩
    exact (DutyStep.rouseNobody hnobody).canGoOn hc hd rfl

theorem canGoOn_of_looping {role : Role} {stage : LoopStage J}
    (hc : (p.thread t).call = none) (hd : (p.thread t).duty = .looping role stage)
    (hm : stage.need.Met p t) (mine : stage.need = .ledger → p.ledgerLock = some t) :
    p.CanGoOn E t := by
  cases stage with
  | entering => exact (DutyStep.enter (mine rfl)).canGoOn hc hd rfl
  | taking =>
    obtain ⟨q, es, hlook⟩ := exists_look (E := E) role (mine rfl)
    exact hlook.canGoOn hc hd rfl
  | asleep => cases hm
  | waking => exact (DutyStep.wake hm).canGoOn hc hd rfl
  | executing x =>
    refine canGoOn_of_executing hc hd ?_
    by_contra hx
    rw [LoopStage.need, if_pos (by simpa using hx)] at hm
    exact hm
  | reporting tally => exact (DutyStep.report (mine rfl)).canGoOn hc hd rfl
  | rousing => exact DutyStep.announce.canGoOn hc hd rfl
  | leaving v => exact (DutyStep.leave (mine rfl)).canGoOn hc hd rfl

theorem canGoOn_of_duty (hp : (p.thread t).Sound) (hc : (p.thread t).call = none)
    (hm : (p.thread t).duty.need.Met p t) : p.CanGoOn E t := by
  by_cases hfree : (p.thread t).duty.need = .ledger ∧ p.ledgerLock = none
  · exact (DutyStep.lockLedger hfree.1 hfree.2).canGoOn hc rfl rfl
  have mine (hn : (p.thread t).duty.need = .ledger) : p.ledgerLock = some t := by
    rw [hn] at hm
    exact hm.resolve_left fun h => hfree ⟨hn, h⟩
  cases hd : (p.thread t).duty with
  | client | finished =>
    rw [hd] at hm
    cases hm
  | opening stage =>
    rw [hd] at hm mine
    cases stage with
    | slot => exact (DutyStep.seize hm).canGoOn hc hd rfl
    | ledger => exact (DutyStep.reset (mine rfl)).canGoOn hc hd rfl
    | logging => exact DutyStep.opened.canGoOn hc hd rfl
  | adding jobs => exact (DutyStep.push (mine (by rw [hd]; rfl))).canGoOn hc hd rfl
  | rousing everyone =>
    cases everyone with
    | true => exact DutyStep.rouseAll.canGoOn hc hd rfl
    | false => exact canGoOn_of_rousing hc hd
  | completing verdict why =>
    simp only [Thread.Sound, hd] at hp
    obtain ⟨r, hr, _⟩ := hp
    cases why with
    | waiting => exact (DutyStep.answer hr).canGoOn hc hd rfl
    | closing => exact (DutyStep.conclude hr).canGoOn hc hd rfl
  | releasing => exact DutyStep.release.canGoOn hc hd rfl
  | looping role stage =>
    rw [hd] at hm mine
    exact canGoOn_of_looping hc hd hm mine

/-- What a thread needs is enough for it to go on. -/
theorem canGoOn_of_met (hp : p.Sound) (ho : p.Orderly) (hm : (p.thread t).need.Met p t) :
    p.CanGoOn E t := by
  cases hc : (p.thread t).call with
  | none =>
    rw [Thread.need_of_duty hc] at hm
    exact canGoOn_of_duty (hp.threads t) hc hm
  | some call =>
    rw [Thread.need_of_call hc] at hm
    exact canGoOn_of_call hc (ho.calls t call hc) hm

end Pool

/-! ## The way of a call to its end -/

/-- The call waits for workers to finish. -/
def Call.joins : Call → Bool
  | .stopping (.joining _ _) => true
  | _ => false

/-- The steps that are left, except those that take a lock and the wait for workers. -/
def Call.remaining : Call → Nat
  | .measuring none => 2
  | .starting _ (.returning _) => 1
  | .starting _ .logging => 2
  | .starting count (.spawning i) => 3 + (count - i)
  | .starting count .checking => 4 + count
  | .starting count .roster => 5 + count
  | .stopping .collecting => 2
  | .stopping .rousing => 3
  | .stopping .flagging => 4
  | .stopping .roster => 5
  | _ => 1

def callRank (p : Pool J) (t : Nat) : Nat :=
  match (p.thread t).call with
  | some call => 2 * call.remaining + if p.Lacks t then 1 else 0
  | none => 0

theorem callRank_of_call (hc : (p.thread t).call = some call) :
    callRank p t = 2 * call.remaining + if p.Lacks t then 1 else 0 := by
  simp [callRank, hc]

theorem callRank_lt (hc : (p.thread t).call = some call)
    (hq : ∀ call', (q.thread t).call = some call' → call'.remaining < call.remaining) :
    callRank q t < callRank p t := by
  rw [callRank_of_call hc]
  cases hcq : (q.thread t).call with
  | none =>
    have hpos : 0 < call.remaining := by
      unfold Call.remaining
      split <;> omega
    simp only [callRank, hcq]
    omega
  | some call' =>
    have hlt := hq call' hcq
    rw [callRank_of_call hcq]
    split <;> split <;> omega

/-- Who has taken the lock that it needs lacks nothing. -/
theorem callRank_lt_of_lock (hc : (p.thread t).call = some call)
    (hq : q.thread t = p.thread t) (hp : p.Lacks t) (hn : ¬ q.Lacks t) :
    callRank q t < callRank p t := by
  rw [callRank_of_call hc, callRank_of_call ((congrArg Thread.call hq).trans hc),
    if_pos hp, if_neg hn]
  omega

theorem CallStep.callRank_lt (hc : (p.thread t).call = some call)
    (hj : call.joins = false) (h : CallStep p t call m q es) :
    callRank q t < callRank p t := by
  have hneed := Thread.need_of_call hc
  have next {r : Pool J} {d : Option Call} (hr : q = r.setCall t d)
      (hd : ∀ call', d = some call' → call'.remaining < call.remaining) :
      callRank q t < callRank p t := by
    refine CheckRounds.callRank_lt hc fun call' hcall => hd call' ?_
    rwa [hr, call_setCall] at hcall
  cases h with
  | lockLedger need free =>
    refine callRank_lt_of_lock hc rfl (.inl ⟨hneed.trans need, by simp [free]⟩) ?_
    rintro (⟨_, hlock⟩ | ⟨hroster, _⟩)
    · exact hlock rfl
    · cases (hneed.trans need).symm.trans hroster
  | lockRoster need free =>
    refine callRank_lt_of_lock hc rfl (.inr ⟨hneed.trans need, by simp [free]⟩) ?_
    rintro (⟨hledger, _⟩ | ⟨_, hlock⟩)
    · cases (hneed.trans need).symm.trans hledger
    · exact hlock rfl
  | join | endStop => cases hj
  | configure | readBatchSize | countWorkers | measure | endStart | collectNone =>
    exact next rfl (by simp)
  | count | enterStart | refuse | accept | spawn | complete | logStart | enterStop
  | flag | alarm | collect =>
    refine next rfl ?_
    rintro _ ⟨⟩
    simp only [Call.remaining]
    omega

/-- A call needs a lock, or nothing, unless it waits for a worker. -/
theorem Call.need_cases (call : Call) :
    call.need = .nothing ∨ call.need = .ledger ∨ call.need = .roster ∨
      call.need = .freeRoster ∨ call.joins = true ∧ ∃ w, call.need = .finish w := by
  cases call with
  | measuring workers => cases workers <;> simp [need]
  | starting count stage => cases stage <;> simp [need, StartStage.need]
  | stopping stage =>
    cases stage with
    | joining ws count => cases ws <;> simp [need, StopStage.need, joins]
    | _ => simp [need, StopStage.need]
  | _ => simp [need]

theorem Call.need_ne_impulse (call : Call) : call.need ≠ .impulse := by
  rcases call.need_cases with h | h | h | h | ⟨_, w, h⟩ <;> simp [h]

/-- The workers that a call has yet to wait for. -/
def Call.waitsFor : Call → List Nat
  | .stopping (.joining left _) => left
  | _ => []

theorem Call.eq_joining_of_joins (h : call.joins = true) :
    ∃ left count, call = .stopping (.joining left count) := by
  unfold joins at h
  split at h
  · exact ⟨_, _, rfl⟩
  · cases h

theorem Call.mem_waitsFor_of_need {w : Nat} (h : call.need = .finish w) :
    w ∈ call.waitsFor := by
  cases call with
  | measuring workers => cases workers <;> cases h
  | starting count stage => cases stage <;> cases h
  | stopping stage =>
    cases stage with
    | joining left count =>
      cases left with
      | nil => cases h
      | cons v rest =>
        cases h
        exact List.mem_cons_self
    | _ => cases h
  | _ => cases h

theorem Call.joins_of_need {w : Nat} (h : call.need = .finish w) : call.joins = true := by
  rcases call.need_cases with hn | hn | hn | hn | ⟨hjoins, _⟩
  · cases hn.symm.trans h
  · cases hn.symm.trans h
  · cases hn.symm.trans h
  · cases hn.symm.trans h
  · exact hjoins

/-- Who has the roster, or waits to read it, needs at most the ledger besides. -/
theorem Thread.call_of_roster {th : Thread J}
    (h : th.keepsRoster = true ∨ th.need = .roster) :
    ∃ call, th.call = some call ∧ call.joins = false ∧
      (call.need = .nothing ∨ call.need = .ledger ∨ call.need = .roster) := by
  cases hc : th.call with
  | none =>
    rcases h with h | h
    · simp [keepsRoster, hc] at h
    · rw [need_of_duty hc] at h
      exact absurd h (Duty.need_ne_roster _)
  | some call =>
    rw [keepsRoster_of_call hc, need_of_call hc] at h
    refine ⟨call, rfl, ?_⟩
    cases call with
    | measuring workers => cases workers <;> simp [Call.need, Call.joins]
    | starting count stage =>
      cases stage <;>
        simp [Call.need, StartStage.need, Call.joins, Call.keepsRoster] at h ⊢
    | stopping stage =>
      cases stage with
      | joining ws count =>
        cases ws <;> simp [Call.need, StopStage.need, Call.keepsRoster] at h
      | _ => simp [Call.need, StopStage.need, Call.joins, Call.keepsRoster] at h ⊢
    | _ => simp [Call.need, Call.joins]

/-- A step of a thread that waits for workers takes one of them off its list, or ends
the wait. -/
theorem Pool.call_of_joining {left : List Nat} {count : Nat}
    (hc : (p.thread t).call = some (.stopping (.joining left count)))
    (hstep : p.step t m = some (q, es)) :
    left = [] ∧ (q.thread t).call = none ∨
      ∃ w rest, left = w :: rest ∧
      (q.thread t).call = some (.stopping (.joining rest count)) := by
  cases callStep_of_step hc hstep with
  | lockLedger need | lockRoster need => cases left <;> cases need
  | @join w rest => exact .inr ⟨w, rest, rfl, call_setCall _ _ _⟩
  | endStop => exact .inl ⟨rfl, call_setCall _ _ _⟩

/-- The steps of others leave a call as it is, and take it no nearer to its end. -/
theorem Pool.Locked.callRank_of_ne (hl : p.Locked) (hstep : p.step t m = some (q, es))
    (hu : u ≠ t) :
    (q.thread u).call = (p.thread u).call ∧ callRank q u = callRank p u := by
  obtain ⟨o, _, ht⟩ := turns_of_step hstep
  have hcall : (q.thread u).call = (p.thread u).call := ht.same Thread.call_roused rfl hu
  refine ⟨hcall, ?_⟩
  cases hc : (p.thread u).call with
  | none => simp [callRank, hcall, hc]
  | some call =>
    have hn : (p.thread u).need ≠ .impulse := by
      rw [Thread.need_of_call hc]
      exact call.need_ne_impulse
    rw [callRank_of_call hc, callRank_of_call (hcall.trans hc)]
    simp only [hl.lacks_iff hstep hu hn]

end CheckRounds
