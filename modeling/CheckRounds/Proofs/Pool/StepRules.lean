import CheckRounds.Pool.Run
/-!
The steps of a pool as rules.

`Pool.step` is cut into functions that follow what a thread is doing. Here the same steps
are listed, each with all that it asks for, the state that it leads to, and what it shows:
`CallStep` for a thread with a call under way, `SoloStep` and `DutyStep` for one without.
The lists are exact (`Pool.step_iff_callStep`, `Pool.step_iff_soloStep`), and this is the
only module that opens `Pool.step`: what a step does to the ledger, to the locks or to the
thread that moves is read off the rules.

`Need` says of each point between two steps what the next step waits for: a lock, the
slot, a worker that has to finish, or nothing.
-/

namespace CheckRounds

open Pool

variable {J E : Type} {t : Nat} {m : Move J E} {es : List (Event J E)}
  {p q : Pool J} {c : Call} {d : Duty J}

/-! ## What a step needs -/

/-- What a thread needs for the step that its current operation takes by itself. -/
inductive Need where
  | nothing
  /-- The ledger, which it takes first and gives back with the step. -/
  | ledger
  /-- That nobody has the ledger: it takes it with the step. -/
  | freeLedger
  | roster
  | freeRoster
  | freeSlot
  /-- That this worker has finished. -/
  | finish (worker : Nat)
  /-- There is no such step: the thread runs code of its own, sleeps, or has finished. -/
  | impulse
  deriving DecidableEq

def StartStage.need : StartStage → Need
  | .roster => .freeRoster
  | .checking => .ledger
  | .spawning _ => .nothing
  | .logging => .ledger
  | .returning _ => .nothing

def StopStage.need : StopStage → Need
  | .roster => .freeRoster
  | .flagging => .ledger
  | .rousing => .nothing
  | .collecting => .nothing
  | .joining [] _ => .nothing
  | .joining (w :: _) _ => .finish w

def Call.need : Call → Need
  | .configuring _ => .ledger
  | .readingBatchSize => .ledger
  | .countingWorkers => .roster
  | .measuring none => .roster
  | .measuring (some _) => .ledger
  | .starting _ stage => stage.need
  | .stopping stage => stage.need

def LoopStage.need : LoopStage J → Need
  | .entering => .ledger
  | .taking => .ledger
  | .asleep => .impulse
  | .waking => .freeLedger
  | .executing x => if x.inJob then .impulse else .nothing
  | .reporting _ => .ledger
  | .rousing => .nothing
  | .leaving _ => .ledger

def Duty.need : Duty J → Need
  | .client => .impulse
  | .opening .slot => .freeSlot
  | .opening .ledger => .ledger
  | .opening .logging => .nothing
  | .adding _ => .ledger
  | .rousing _ => .nothing
  | .looping _ stage => stage.need
  | .completing _ _ => .nothing
  | .releasing _ => .nothing
  | .finished => .impulse

/-- A call on top of a duty comes first. -/
def Thread.need (th : Thread J) : Need :=
  match th.call with
  | some c => c.need
  | none => th.duty.need

theorem Thread.need_of_call {th : Thread J} (h : th.call = some c) :
    th.need = c.need := by
  simp [need, h]

theorem Thread.need_of_duty {th : Thread J} (h : th.call = none) :
    th.need = th.duty.need := by
  simp [need, h]

theorem Thread.call_of_atLiberty {th : Thread J} (h : th.atLiberty = true) :
    th.call = none := by
  unfold atLiberty at h
  split at h <;> first | assumption | cases h

theorem Thread.need_of_atLiberty {th : Thread J} (h : th.atLiberty = true) :
    th.need = .impulse := by
  unfold Thread.atLiberty at h
  split at h
  case h_1 hc hd => simp [Thread.need, hc, hd, Duty.need]
  case h_2 hc hd => simp [Thread.need, hc, hd, Duty.need, LoopStage.need, h]
  case h_3 => cases h

theorem Thread.of_isClient {th : Thread J} (h : th.isClient = true) :
    th.call = none ∧ th.duty = .client := by
  unfold isClient at h
  split at h
  · rename_i hc hd
    exact ⟨hc, hd⟩
  · cases h

theorem Duty.need_ne_roster (d : Duty J) : d.need ≠ .roster := by
  cases d with
  | opening stage => cases stage <;> simp [need]
  | looping role stage =>
    cases stage with
    | executing x =>
      rw [need, LoopStage.need]
      split <;> simp
    | _ => simp [need, LoopStage.need]
  | _ => simp [need]

/-! ## What needs a lock -/

namespace Pool

theorem withLedger_eq_some {work : Outcome J E} (h : p.withLedger t work = some (q, es)) :
    p.ledgerLock = some t ∧ work = some (q, es) ∨
      p.ledgerLock = none ∧ q = { p with ledgerLock := some t } ∧ es = [] := by
  unfold withLedger at h
  split at h
  · rename_i mine
    exact .inl ⟨mine, h⟩
  · split at h
    · rename_i free
      cases h
      exact .inr ⟨free, rfl, rfl⟩
    · cases h

theorem withRoster_eq_some {work : Outcome J E} (h : p.withRoster t work = some (q, es)) :
    p.rosterLock = some t ∧ work = some (q, es) ∨
      p.rosterLock = none ∧ q = { p with rosterLock := some t } ∧ es = [] := by
  unfold withRoster at h
  split at h
  · rename_i mine
    exact .inl ⟨mine, h⟩
  · split at h
    · rename_i free
      cases h
      exact .inr ⟨free, rfl, rfl⟩
    · cases h

theorem withLedger_of_mine {work : Outcome J E} (mine : p.ledgerLock = some t) :
    p.withLedger t work = work := if_pos mine

theorem withLedger_of_free {work : Outcome J E} (free : p.ledgerLock = none) :
    p.withLedger t work = some ({ p with ledgerLock := some t }, []) := by
  simp [withLedger, free]

theorem withRoster_of_mine {work : Outcome J E} (mine : p.rosterLock = some t) :
    p.withRoster t work = work := if_pos mine

theorem withRoster_of_free {work : Outcome J E} (free : p.rosterLock = none) :
    p.withRoster t work = some ({ p with rosterLock := some t }, []) := by
  simp [withRoster, free]

end Pool

/-! ## The steps of a call -/

/-- What a step of `t` can do that has this call under way. -/
inductive CallStep (p : Pool J) (t : Nat) :
    Call → Move J E → Pool J → List (Event J E) → Prop where
  | lockLedger {c : Call} (need : c.need = .ledger) (free : p.ledgerLock = none) :
      CallStep p t c .advance { p with ledgerLock := some t } []
  | lockRoster {c : Call} (need : c.need = .roster) (free : p.rosterLock = none) :
      CallStep p t c .advance { p with rosterLock := some t } []
  | configure {size} (mine : p.ledgerLock = some t) :
      CallStep p t (.configuring size) .advance
        ((p.leaveLedger (p.ledger.configure size)).setCall t none) [.returned .done]
  | readBatchSize (mine : p.ledgerLock = some t) :
      CallStep p t .readingBatchSize .advance
        ((p.leaveLedger p.ledger).setCall t none)
        [.returned (.number p.ledger.batchSize)]
  | countWorkers (mine : p.rosterLock = some t) :
      CallStep p t .countingWorkers .advance
        ({ p with rosterLock := none }.setCall t none)
        [.returned (.number p.roster.length)]
  | count (mine : p.rosterLock = some t) :
      CallStep p t (.measuring none) .advance
        ({ p with rosterLock := none }.setCall t
          (some (.measuring (some p.roster.length)))) []
  | measure {workers} (mine : p.ledgerLock = some t) :
      CallStep p t (.measuring (some workers)) .advance
        ((p.leaveLedger p.ledger).setCall t none)
        [.returned (.metrics (p.measure workers))]
  | enterStart {count} (free : p.rosterLock = none) :
      CallStep p t (.starting count .roster) .advance
        ({ p with rosterLock := some t }.setCall t (some (.starting count .checking))) []
  | refuse {count e} (mine : p.ledgerLock = some t) (why : p.startRefusal? = some e) :
      CallStep p t (.starting count .checking) .advance
        ((p.leaveLedger p.ledger).setCall t
          (some (.starting count (.returning (.error e))))) []
  | accept {count} (mine : p.ledgerLock = some t) (why : p.startRefusal? = none) :
      CallStep p t (.starting count .checking) .advance
        ((p.leaveLedger p.ledger).setCall t (some (.starting count (.spawning 0)))) []
  | spawn {count i w} (more : i < count) (fresh : p.threads.length ≤ w) :
      CallStep p t (.starting count (.spawning i)) (.spawn w)
        (({ p with roster := p.roster ++ [w] }.setThread w
            { duty := .looping .worker .entering }).setCall t
          (some (.starting count (.spawning (i + 1))))) [.spawned w i]
  | complete {count} :
      CallStep p t (.starting count (.spawning count)) .advance
        (p.setCall t (some (.starting count .logging))) []
  | logStart {count} (mine : p.ledgerLock = some t) :
      CallStep p t (.starting count .logging) .advance
        ((p.leaveLedger p.ledger).setCall t
          (some (.starting count (.returning (.ok ())))))
            [.started count p.ledger.batchSize]
  | endStart {count result} :
      CallStep p t (.starting count (.returning result)) .advance
        ({ p with rosterLock := none }.setCall t none) [.returned (.started result)]
  | enterStop (free : p.rosterLock = none) :
      CallStep p t (.stopping .roster) .advance
        ({ p with rosterLock := some t }.setCall t (some (.stopping .flagging))) []
  | flag (mine : p.ledgerLock = some t) :
      CallStep p t (.stopping .flagging) .advance
        ((p.leaveLedger p.ledger.shutDown).setCall t (some (.stopping .rousing)))
        [.flagged]
  | alarm :
      CallStep p t (.stopping .rousing) .advance
        (p.rouseAll.setCall t (some (.stopping .collecting))) [.alarmed]
  | collectNone (nobody : p.roster = []) :
      CallStep p t (.stopping .collecting) .advance
        ({ p with roster := [], rosterLock := none }.setCall t none)
        [.collected [], .returned .done]
  | collect (somebody : p.roster ≠ []) :
      CallStep p t (.stopping .collecting) .advance
        ({ p with roster := [], rosterLock := none }.setCall t
          (some (.stopping (.joining p.roster p.roster.length)))) [.collected p.roster]
  | join {w ws count} (finished : (p.thread w).duty = .finished) :
      CallStep p t (.stopping (.joining (w :: ws) count)) .advance
        (p.setCall t (some (.stopping (.joining ws count)))) [.joined w]
  | endStop {count} :
      CallStep p t (.stopping (.joining [] count)) .advance
        (p.setCall t none) [.stopped count, .returned .done]

theorem CallStep.of_withLedger {work : Outcome J E} (hn : c.need = .ledger)
    (h : p.withLedger t work = some (q, es))
    (hw : p.ledgerLock = some t → work = some (q, es) → CallStep p t c .advance q es) :
    CallStep p t c .advance q es := by
  obtain ⟨mine, h⟩ | ⟨free, rfl, rfl⟩ := withLedger_eq_some h
  · exact hw mine h
  · exact .lockLedger hn free

theorem CallStep.of_withRoster {work : Outcome J E} (hn : c.need = .roster)
    (h : p.withRoster t work = some (q, es))
    (hw : p.rosterLock = some t → work = some (q, es) → CallStep p t c .advance q es) :
    CallStep p t c .advance q es := by
  obtain ⟨mine, h⟩ | ⟨free, rfl, rfl⟩ := withRoster_eq_some h
  · exact hw mine h
  · exact .lockRoster hn free

namespace Pool

theorem callStep_of_stepStart {count : Nat} {stage : StartStage}
    (h : p.stepStart t count stage m = some (q, es)) :
    CallStep p t (.starting count stage) m q es := by
  unfold stepStart at h
  split at h
  case h_1 =>
    split at h
    · rename_i hfree
      cases h
      exact .enterStart hfree
    · cases h
  case h_2 =>
    refine .of_withLedger rfl h fun hmine h => ?_
    cases hr : p.startRefusal? with
    | none =>
      rw [hr] at h
      cases h
      exact .accept hmine hr
    | some e =>
      rw [hr] at h
      cases h
      exact .refuse hmine hr
  case h_3 =>
    split at h
    · rename_i hw
      cases h
      exact .spawn hw.1 hw.2
    · cases h
  case h_4 =>
    split at h
    · rename_i hall
      cases h
      rw [hall]
      exact .complete
    · cases h
  case h_5 =>
    refine .of_withLedger rfl h fun hmine h => ?_
    cases h
    exact .logStart hmine
  case h_6 =>
    cases h
    exact .endStart
  case h_7 => cases h

theorem callStep_of_stepStop {stage : StopStage}
    (h : p.stepStop t stage = some (q, es)) :
    CallStep p t (.stopping stage) .advance q es := by
  unfold stepStop at h
  split at h
  case h_1 =>
    split at h
    · rename_i hfree
      cases h
      exact .enterStop hfree
    · cases h
  case h_2 =>
    refine .of_withLedger rfl h fun hmine h => ?_
    cases h
    exact .flag hmine
  case h_3 =>
    cases h
    exact .alarm
  case h_4 =>
    split at h
    · rename_i hnobody
      cases h
      exact .collectNone (by simpa using hnobody)
    · rename_i hsomebody
      cases h
      exact .collect (by simpa using hsomebody)
  case h_5 =>
    cases h
    exact .endStop
  case h_6 =>
    split at h
    · rename_i hfinished
      cases h
      exact .join hfinished
    · cases h

/-- Every step of a thread with a call under way is in the list. -/
theorem callStep_of_step (hc : (p.thread t).call = some c)
    (h : p.step t m = some (q, es)) :
    CallStep p t c m q es := by
  unfold step at h
  rw [hc] at h
  simp only [stepCall] at h
  split at h
  case h_1 | h_2 | h_5 =>
    refine .of_withLedger rfl h fun hmine h => ?_
    cases h
    constructor
    exact hmine
  case h_3 | h_4 =>
    refine .of_withRoster rfl h fun hmine h => ?_
    cases h
    constructor
    exact hmine
  case h_6 => exact callStep_of_stepStart h
  case h_7 => exact callStep_of_stepStop h
  case h_8 => cases h

theorem step_of_call (hc : (p.thread t).call = some c) :
    p.step t m = p.stepCall t c m := by
  unfold step
  rw [hc]

theorem stepCall_of_needs_ledger (need : c.need = .ledger) (free : p.ledgerLock = none) :
    p.stepCall t c (.advance : Move J E) =
      some ({ p with ledgerLock := some t }, []) := by
  cases c with
  | measuring workers =>
    cases workers with
    | none => cases need
    | some workers => exact withLedger_of_free free
  | starting count stage =>
    cases stage with
    | checking | logging => exact withLedger_of_free free
    | roster | spawning | returning => cases need
  | stopping stage =>
    cases stage with
    | flagging => exact withLedger_of_free free
    | joining ws count => cases ws <;> cases need
    | roster | rousing | collecting => cases need
  | configuring | readingBatchSize => exact withLedger_of_free free
  | countingWorkers => cases need

theorem stepCall_of_needs_roster (need : c.need = .roster) (free : p.rosterLock = none) :
    p.stepCall t c (.advance : Move J E) =
      some ({ p with rosterLock := some t }, []) := by
  cases c with
  | measuring workers =>
    cases workers with
    | none => exact withRoster_of_free free
    | some workers => cases need
  | countingWorkers => exact withRoster_of_free free
  | starting count stage => cases stage <;> cases need
  | stopping stage =>
    cases stage with
    | joining ws count => cases ws <;> cases need
    | _ => cases need
  | configuring | readingBatchSize => cases need

end Pool

/-- Every step in the list is possible. -/
theorem CallStep.step (h : CallStep p t c m q es) (hc : (p.thread t).call = some c) :
    p.step t m = some (q, es) := by
  rw [step_of_call hc]
  cases h with
  | lockLedger need free => exact stepCall_of_needs_ledger need free
  | lockRoster need free => exact stepCall_of_needs_roster need free
  | configure mine | readBatchSize mine | measure mine | logStart mine | flag mine =>
    exact withLedger_of_mine mine
  | countWorkers mine | count mine => exact withRoster_of_mine mine
  | refuse mine why | accept mine why =>
    simp only [stepCall, stepStart, withLedger_of_mine mine, why]
  | enterStart free => simp only [stepCall, stepStart, if_pos free]
  | spawn more fresh => simp only [stepCall, stepStart, if_pos (And.intro more fresh)]
  | complete => simp only [stepCall, stepStart, if_true]
  | enterStop free => simp only [stepCall, stepStop, if_pos free]
  | collectNone nobody => simp [stepCall, stepStop, nobody]
  | collect somebody => simp [stepCall, stepStop, somebody]
  | join finished => simp only [stepCall, stepStop, finished]
  | endStart | alarm | endStop => rfl

theorem Pool.step_iff_callStep (hc : (p.thread t).call = some c) :
    p.step t m = some (q, es) ↔ CallStep p t c m q es :=
  ⟨callStep_of_step hc, fun h => h.step hc⟩

/-! ## The steps of a duty -/

/-- What a step can be by which `t`, without a call under way, goes on with this duty. -/
inductive DutyStep (p : Pool J) (t : Nat) :
    Duty J → Move J E → Pool J → List (Event J E) → Prop where
  | lockLedger {d : Duty J} (need : d.need = .ledger) (free : p.ledgerLock = none) :
      DutyStep p t d .advance { p with ledgerLock := some t } []
  | knock (inUse : p.retired = false) :
      DutyStep p t .client .openRound (p.setDuty t (.opening .slot)) []
  | seizeAtOnce (inUse : p.retired = false) (free : p.slot = none) :
      DutyStep p t .client .tryOpen
        ({ p with slot := some t }.setDuty t (.opening .ledger)) []
  | decline (inUse : p.retired = false) (taken : p.slot ≠ none) :
      DutyStep p t .client .tryOpen p [.returned (.opened false)]
  | declineJob {role x} (inJob : x.inJob = true) (taken : p.slot ≠ none) :
      DutyStep p t (.looping role (.executing x)) .tryOpen p [.returned (.opened false)]
  | seize (free : p.slot = none) :
      DutyStep p t (.opening .slot) .advance
        ({ p with slot := some t }.setDuty t (.opening .ledger)) []
  | reset (mine : p.ledgerLock = some t) :
      DutyStep p t (.opening .ledger) .advance
        ((p.leaveLedger p.ledger.openRound).setDuty t (.opening .logging)) []
  | opened :
      DutyStep p t (.opening .logging) .advance
        ((p.setRound t (some {})).setDuty t .client) [.opened]
  | addNothing {r} (round : (p.thread t).round = some r) :
      DutyStep p t .client (.add []) p []
  | submit {r jobs} (round : (p.thread t).round = some r) (some_job : jobs ≠ []) :
      DutyStep p t .client (.add jobs)
        ((p.setRound t (some { added := r.added + jobs.length })).setDuty t
          (.adding jobs)) []
  | push {jobs} (mine : p.ledgerLock = some t) :
      DutyStep p t (.adding jobs) .advance
        ((p.leaveLedger (p.ledger.push jobs)).setDuty t (.rousing (jobs.length != 1)))
        [.added jobs]
  | rouseAll :
      DutyStep p t (.rousing true) .advance (p.rouseAll.setDuty t .client) []
  | rouseNobody (nobody : p.nobodyAsleep = true) :
      DutyStep p t (.rousing false) (.rouse none) (p.setDuty t .client) []
  | rouseOne {u} (asleep : (p.thread u).isAsleep = true) :
      DutyStep p t (.rousing false) (.rouse (some u))
        ((p.setThread u (p.thread u).roused).setDuty t .client) []
  | retell {r v} (round : (p.thread t).round = some r) (verdict : r.verdict = some v) :
      DutyStep p t .client .wait p [.returned (.verdict v)]
  | engage {r} (round : (p.thread t).round = some r) (verdict : r.verdict = none) :
      DutyStep p t .client .wait
        (p.setDuty t (.looping (.owner .waiting) .entering)) []
  | dismiss {r v u} (round : (p.thread t).round = some r) (verdict : r.verdict = some v) :
      DutyStep p t .client (.close u) (p.setDuty t (.releasing u)) []
  | engageToClose {r u} (round : (p.thread t).round = some r)
      (verdict : r.verdict = none) :
      DutyStep p t .client (.close u)
        (p.setDuty t (.looping (.owner (.closing u)) .entering)) []
  | enter {role} (mine : p.ledgerLock = some t) :
      DutyStep p t (.looping role .entering) .advance
        ((p.leaveLedger p.ledger.enter).setDuty t (.looping role .taking)) []
  | quit (mine : p.ledgerLock = some t) (flag : p.ledger.shuttingDown = true) :
      DutyStep p t (.looping .worker .taking) .advance
        ((p.leaveLedger p.ledger).setDuty t (.looping .worker (.leaving true))) []
  | take {role} (mine : p.ledgerLock = some t)
      (stays : role = .worker → p.ledger.shuttingDown = false)
      (work : p.ledger.pending ≠ []) :
      DutyStep p t (.looping role .taking) .advance
        ((p.leaveLedger p.ledger.take).setDuty t
          (.looping role (.executing (.start p.ledger.batch))))
        [.took role p.ledger.batch]
  | drain {why} (mine : p.ledgerLock = some t) (noWork : p.ledger.pending = [])
      (done : p.ledger.todo = 0) :
      DutyStep p t (.looping (.owner why) .taking) .advance
        ((p.leaveLedger p.ledger.closeRound).setDuty t
          (.looping (.owner why) (.leaving p.ledger.allOk))) [.drained p.ledger.allOk]
  | sleep {role} (mine : p.ledgerLock = some t)
      (stays : role = .worker → p.ledger.shuttingDown = false)
      (noWork : p.ledger.pending = []) (undone : role ≠ .worker → p.ledger.todo ≠ 0) :
      DutyStep p t (.looping role .taking) .advance
        ((p.leaveLedger p.ledger.fallAsleep).setDuty t (.looping role .asleep)) []
  | stir {role} :
      DutyStep p t (.looping role .asleep) .stir (p.setDuty t (.looping role .waking)) []
  | wake {role} (free : p.ledgerLock = none) :
      DutyStep p t (.looping role .waking) .advance
        ({ p with ledger := p.ledger.wakeUp, ledgerLock := some t }.setDuty t
          (.looping role .taking)) []
  | work {role x y d e} (step : x.step d = some (y, e)) :
      DutyStep p t (.looping role (.executing x)) (.work d)
        (p.setDuty t (.looping role (.executing y))) [.job e]
  | finish {role x} (finished : x.finished = true) :
      DutyStep p t (.looping role (.executing x)) .advance
        (p.setDuty t (.looping role (.reporting x.tally))) [.executed role x.tally]
  | report {role tally} (mine : p.ledgerLock = some t) :
      DutyStep p t (.looping role (.reporting tally)) .advance
        ((p.leaveLedger (p.ledger.report tally)).setDuty t
          (.looping role
            (if (p.ledger.report tally).todo = 0 then .rousing else .taking)))
        [.reported tally]
  | announce {role} :
      DutyStep p t (.looping role .rousing) .advance
        (p.rouseAll.setDuty t (.looping role .taking)) []
  | leave {role v} (mine : p.ledgerLock = some t) :
      DutyStep p t (.looping role (.leaving v)) .advance
        ((p.leaveLedger p.ledger.leave).setDuty t (afterLoop v role)) []
  | answer {v r} (round : (p.thread t).round = some r) :
      DutyStep p t (.completing v .waiting) .advance
        ((p.setRound t (some { r with verdict := some v })).setDuty t .client)
        [.completed r.added v, .returned (.verdict v)]
  | conclude {v u r} (round : (p.thread t).round = some r) :
      DutyStep p t (.completing v (.closing u)) .advance
        ((p.setRound t (some { r with verdict := some v })).setDuty t (.releasing u))
        [.completed r.added v]
  | release {u} :
      DutyStep p t (.releasing u) .advance (p.release t u) [.closed]

theorem DutyStep.of_withLedger {work : Outcome J E} (hn : d.need = .ledger)
    (h : p.withLedger t work = some (q, es))
    (hw : p.ledgerLock = some t → work = some (q, es) → DutyStep p t d .advance q es) :
    DutyStep p t d .advance q es := by
  obtain ⟨mine, h⟩ | ⟨free, rfl, rfl⟩ := withLedger_eq_some h
  · exact hw mine h
  · exact .lockLedger hn free

namespace Pool

theorem dutyStep_of_lookForWork {role : Role} (mine : p.ledgerLock = some t)
    (h : p.lookForWork t role = some (q, es)) :
    DutyStep p t (.looping role .taking) .advance q es := by
  simp only [lookForWork] at h
  split at h
  · rename_i hquit
    obtain ⟨rfl, hflag⟩ := hquit
    cases h
    exact .quit mine hflag
  · rename_i hstay
    have stays : role = .worker → p.ledger.shuttingDown = false := by
      intro hr
      simpa [hr] using hstay
    split at h
    · rename_i hwork
      cases h
      exact .take mine stays (by simpa using hwork)
    · rename_i hnone
      have noWork : p.ledger.pending = [] := by simpa using hnone
      split at h
      · rename_i hdone
        cases h
        obtain ⟨hr, htodo⟩ := hdone
        cases role with
        | worker => exact absurd rfl hr
        | owner why => exact .drain mine noWork htodo
      · rename_i hopen
        cases h
        exact .sleep mine stays noWork fun hr ht => hopen ⟨hr, ht⟩

/-- Who looks for work with the ledger at hand finds some, leaves or goes to sleep. -/
theorem exists_look (role : Role) (mine : p.ledgerLock = some t) :
    ∃ q es, DutyStep p t (.looping role .taking) (.advance : Move J E) q es := by
  have hsome : (p.lookForWork t role : Outcome J E).isSome = true := by
    simp only [lookForWork]
    split
    · rfl
    · split
      · rfl
      · split <;> rfl
  obtain ⟨⟨q, es⟩, h⟩ := Option.isSome_iff_exists.1 hsome
  exact ⟨q, es, dutyStep_of_lookForWork mine h⟩

theorem dutyStep_of_stepLoop {role : Role} {stage : LoopStage J}
    (h : p.stepLoop t role stage m = some (q, es)) :
    DutyStep p t (.looping role stage) m q es := by
  unfold stepLoop at h
  split at h
  case h_1 =>
    refine .of_withLedger rfl h fun mine h => ?_
    cases h
    exact .enter mine
  case h_2 => exact .of_withLedger rfl h dutyStep_of_lookForWork
  case h_3 =>
    cases h
    exact .stir
  case h_4 =>
    split at h
    · rename_i free
      cases h
      exact .wake free
    · cases h
  case h_5 =>
    split at h
    · rename_i hx
      cases h
      exact .work hx
    · cases h
  case h_6 =>
    split at h
    · rename_i hx
      cases h
      exact .finish hx
    · cases h
  case h_7 =>
    refine .of_withLedger rfl h fun mine h => ?_
    cases h
    exact .report mine
  case h_8 =>
    cases h
    exact .announce
  case h_9 =>
    refine .of_withLedger rfl h fun mine h => ?_
    cases h
    exact .leave mine
  case h_10 => cases h

theorem dutyStep_of_stepOpening {stage : OpeningStage}
    (h : p.stepOpening t stage = some (q, es)) :
    DutyStep p t (.opening stage) .advance q es := by
  cases stage with
  | slot =>
    simp only [stepOpening] at h
    split at h
    · rename_i free
      cases h
      exact .seize free
    · cases h
  | ledger =>
    refine .of_withLedger rfl h fun mine h => ?_
    cases h
    exact .reset mine
  | logging =>
    cases h
    exact .opened

theorem dutyStep_of_stepRound {r : Round} (round : (p.thread t).round = some r)
    (h : p.stepRound t r m = some (q, es)) : DutyStep p t .client m q es := by
  unfold stepRound at h
  split at h
  case h_1 jobs =>
    split at h
    · rename_i hnone
      cases h
      obtain rfl := List.isEmpty_iff.1 hnone
      exact .addNothing round
    · rename_i hsome
      cases h
      exact .submit round (by simpa using hsome)
  case h_2 =>
    split at h
    · rename_i hv
      cases h
      exact .retell round hv
    · rename_i hv
      cases h
      exact .engage round hv
  case h_3 =>
    split at h
    · rename_i hv
      cases h
      exact .dismiss round hv
    · rename_i hv
      cases h
      exact .engageToClose round hv
  case h_4 => cases h

theorem dutyStep_of_rouseOne {sleeper : Option Nat} {r : Pool J}
    (h : p.rouseOne sleeper = some r) :
    DutyStep p t (.rousing false) (.rouse sleeper) (r.setDuty t .client)
      ([] : List (Event J E)) := by
  cases sleeper with
  | none =>
    simp only [rouseOne] at h
    split at h
    · rename_i nobody
      cases h
      exact .rouseNobody nobody
    · cases h
  | some u =>
    simp only [rouseOne] at h
    split at h
    · rename_i asleep
      cases h
      exact .rouseOne asleep
    · cases h

theorem dutyStep_of_complete {r : Round} {v : Bool} {why : Occasion}
    (round : (p.thread t).round = some r) (h : p.complete t r v why = some (q, es)) :
    DutyStep p t (.completing v why) .advance q es := by
  cases why with
  | waiting =>
    cases h
    exact .answer round
  | closing unwinding =>
    cases h
    exact .conclude round

theorem dutyStep_of_stepDuty (hd : (p.thread t).duty = d)
    (h : p.stepDuty t m = some (q, es)) : DutyStep p t d m q es := by
  unfold stepDuty at h
  rw [hd] at h
  split at h
  case h_1 =>
    split at h
    · cases h
    · rename_i inUse
      cases h
      exact .knock (by simpa using inUse)
  case h_2 =>
    split at h
    · cases h
    · rename_i inUse
      split at h
      · rename_i free
        cases h
        exact .seizeAtOnce (by simpa using inUse) free
      · rename_i taken
        cases h
        exact .decline (by simpa using inUse) taken
  case h_3 =>
    split at h
    · rename_i round
      exact dutyStep_of_stepRound round h
    · cases h
  case h_4 => exact dutyStep_of_stepOpening h
  case h_5 =>
    refine .of_withLedger rfl h fun mine h => ?_
    cases h
    exact .push mine
  case h_6 =>
    cases h
    exact .rouseAll
  case h_7 =>
    split at h
    · rename_i hr
      cases h
      exact dutyStep_of_rouseOne hr
    · cases h
  case h_8 =>
    split at h
    · rename_i hx
      cases h
      exact .declineJob hx.1 hx.2
    · cases h
  case h_9 => exact dutyStep_of_stepLoop h
  case h_10 =>
    split at h
    · rename_i round
      exact dutyStep_of_complete round h
    · cases h
  case h_11 =>
    cases h
    exact .release
  case h_12 => cases h

theorem stepDuty_of_needs_ledger (hd : (p.thread t).duty = d) (need : d.need = .ledger)
    (free : p.ledgerLock = none) :
    p.stepDuty t (.advance : Move J E) = some ({ p with ledgerLock := some t }, []) := by
  unfold stepDuty
  rw [hd]
  cases d with
  | opening stage =>
    cases stage with
    | ledger => exact withLedger_of_free free
    | slot | logging => cases need
  | adding jobs => exact withLedger_of_free free
  | looping role stage =>
    cases stage with
    | entering | taking | reporting | leaving => exact withLedger_of_free free
    | executing x =>
      simp only [Duty.need, LoopStage.need] at need
      split at need <;> cases need
    | asleep | waking | rousing => cases need
  | client | rousing | completing | releasing | finished => cases need

end Pool

theorem DutyStep.stepDuty (h : DutyStep p t d m q es) (hd : (p.thread t).duty = d) :
    p.stepDuty t m = some (q, es) := by
  cases h with
  | lockLedger need free => exact stepDuty_of_needs_ledger hd need free
  | knock inUse => simp [Pool.stepDuty, hd, inUse]
  | seizeAtOnce inUse free => simp [Pool.stepDuty, hd, inUse, free]
  | decline inUse taken => simp [Pool.stepDuty, hd, inUse, taken]
  | declineJob inJob taken => simp [Pool.stepDuty, hd, inJob, taken]
  | seize free => simp [Pool.stepDuty, hd, stepOpening, free]
  | reset mine => simp [Pool.stepDuty, hd, stepOpening, withLedger_of_mine mine]
  | addNothing round => simp [Pool.stepDuty, hd, stepRound, round]
  | submit round some_job => simp [Pool.stepDuty, hd, stepRound, round, some_job]
  | push mine => simp [Pool.stepDuty, hd, withLedger_of_mine mine]
  | rouseNobody nobody => simp [Pool.stepDuty, hd, Pool.rouseOne, nobody]
  | rouseOne asleep => simp [Pool.stepDuty, hd, Pool.rouseOne, asleep]
  | retell round verdict | engage round verdict | dismiss round verdict
  | engageToClose round verdict => simp [Pool.stepDuty, hd, stepRound, round, verdict]
  | enter mine | report mine | leave mine =>
    simp [Pool.stepDuty, hd, stepLoop, withLedger_of_mine mine]
  | quit mine flag =>
    simp [Pool.stepDuty, hd, stepLoop, withLedger_of_mine mine, lookForWork, flag]
  | @take role mine stays work =>
    have hstays : ¬ (role = .worker ∧ p.ledger.shuttingDown = true) := by
      rintro ⟨hr, hflag⟩
      cases (stays hr).symm.trans hflag
    simp only [Pool.stepDuty, hd, stepLoop, withLedger_of_mine mine, lookForWork]
    rw [if_neg hstays, if_pos (by simpa using work)]
  | drain mine noWork done =>
    simp [Pool.stepDuty, hd, stepLoop, withLedger_of_mine mine, lookForWork, noWork, done]
  | @sleep role mine stays noWork undone =>
    have hstays : ¬ (role = .worker ∧ p.ledger.shuttingDown = true) := by
      rintro ⟨hr, hflag⟩
      cases (stays hr).symm.trans hflag
    have hopen : ¬ (role ≠ .worker ∧ p.ledger.todo = 0) := fun h => undone h.1 h.2
    simp only [Pool.stepDuty, hd, stepLoop, withLedger_of_mine mine, lookForWork]
    rw [if_neg hstays, if_neg (by simp [noWork]), if_neg hopen]
  | wake free => simp [Pool.stepDuty, hd, stepLoop, free]
  | work step => simp [Pool.stepDuty, hd, stepLoop, step]
  | finish finished => simp [Pool.stepDuty, hd, stepLoop, finished]
  | answer round | conclude round => simp [Pool.stepDuty, hd, complete, round]
  | opened | rouseAll | stir | announce | release =>
    simp [Pool.stepDuty, hd, stepLoop, stepOpening]

/-! ## The steps without a call -/

/-- The call that serves a request, at its beginning. -/
def Request.call : Request → Call
  | .configure n => .configuring n
  | .batchSize => .readingBatchSize
  | .workerThreads => .countingWorkers
  | .metrics => .measuring none
  | .start count => .starting count .roster
  | .stop => .stopping .roster
  | .retire => .stopping .roster

/-- What a step can be if no call is under way: it begins one, or it belongs to the duty
of the thread. -/
inductive SoloStep (p : Pool J) (t : Nat) :
    Move J E → Pool J → List (Event J E) → Prop where
  | begins (r : Request) (liberty : (p.thread t).atLiberty = true)
      (inUse : p.retired = false)
      (alone : r = Request.retire → p.unusedBut t = true) :
      SoloStep p t (.request r)
        ({ p with retired := decide (r = Request.retire) }.setCall t (some r.call)) []
  | goesOn {d move after shown} (other : ∀ r, move ≠ .request r)
      (duty : (p.thread t).duty = d) (step : DutyStep p t d move after shown) :
      SoloStep p t move after shown

namespace Pool

/-- A request other than the last one leaves the pool in use, as it is. -/
theorem beginCall_eq {r : Request} (inUse : p.retired = false)
    (alone : r = .retire → p.unusedBut t = true) :
    p.beginCall t r = some
      ({ p with retired := decide (r = Request.retire) }.setCall t (some r.call),
        ([] : List (Event J E))) := by
  have hp : { p with retired := false } = p := by rw [← inUse]
  cases r with
  | retire => simp [beginCall, alone rfl, Request.call]
  | _ => simp [beginCall, hp, Request.call]

/-- Every step of a thread without a call is in the list. -/
theorem soloStep_of_step (hc : (p.thread t).call = none) (h : p.step t m = some (q, es)) :
    SoloStep p t m q es := by
  unfold step at h
  rw [hc] at h
  split at h
  case h_1 hsome => cases hsome
  case h_2 r _ =>
    split at h
    · rename_i hl
      have inUse : p.retired = false := by simpa using hl.2
      have alone : r = .retire → p.unusedBut t = true := by
        rintro rfl
        cases hused : p.unusedBut t with
        | true => rfl
        | false => simp [beginCall, hused] at h
      rw [beginCall_eq inUse alone] at h
      cases h
      exact .begins r hl.1 inUse alone
    · cases h
  case h_3 hmove =>
    exact .goesOn (fun r hr => hmove r hr) rfl (dutyStep_of_stepDuty rfl h)

theorem step_of_noRequest (hc : (p.thread t).call = none) (hm : ∀ r, m ≠ .request r) :
    p.step t m = p.stepDuty t m := by
  unfold step
  rw [hc]
  cases m with
  | request r => exact absurd rfl (hm r)
  | _ => rfl

end Pool

theorem SoloStep.step (h : SoloStep p t m q es) (hc : (p.thread t).call = none) :
    p.step t m = some (q, es) := by
  cases h with
  | begins r liberty inUse alone =>
    unfold Pool.step
    rw [hc]
    simp only [liberty, inUse, Bool.not_false, and_self, if_true]
    exact beginCall_eq inUse alone
  | goesOn other hd step =>
    rw [step_of_noRequest hc other]
    exact step.stepDuty hd

theorem Pool.step_iff_soloStep (hc : (p.thread t).call = none) :
    p.step t m = some (q, es) ↔ SoloStep p t m q es :=
  ⟨soloStep_of_step hc, fun h => h.step hc⟩

theorem DutyStep.noRequest (h : DutyStep p t d m q es) (r : Request) :
    m ≠ .request r := by
  cases h <;> simp

/-- A step of the duty is possible while no call is under way. -/
theorem DutyStep.step (h : DutyStep p t d m q es) (hc : (p.thread t).call = none)
    (hd : (p.thread t).duty = d) : p.step t m = some (q, es) := by
  rw [step_of_noRequest hc h.noRequest]
  exact h.stepDuty hd

end CheckRounds
