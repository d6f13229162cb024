import CheckRounds.Pool.Basic
/-!
One step of one thread.

`Pool.step` says what a thread may do and what comes of it. A move that is not possible
in a state, because a lock is taken or because the thread is occupied otherwise, has no
result. Every part that needs the ledger takes two steps: the first one takes the lock,
the second one does the work and gives the lock back. Sleepers are roused in a step of
its own, after the lock was given back.

No job is called, released or waited for by a thread that has a lock, with two
exceptions on the side of the pool itself: the start of workers is logged with the
roster and the ledger at hand, and sleepers are roused with the roster at hand when the
pool is stopped.
-/

namespace CheckRounds

namespace Pool

variable {J E : Type}

abbrev Outcome (J E : Type) : Type := Option (Pool J × List (Event J E))

/-- A part of `t` that needs the ledger: takes the lock if it is free, and does the work
once `t` has it. The work gives the lock back. -/
@[inline] def withLedger (p : Pool J) (t : Nat) (work : Outcome J E) : Outcome J E :=
  if p.ledgerLock = some t then work
  else if p.ledgerLock = none then some ({ p with ledgerLock := some t }, [])
  else none

def leaveLedger (p : Pool J) (l : Ledger J) : Pool J :=
  { p with ledger := l, ledgerLock := none }

@[inline] def withRoster (p : Pool J) (t : Nat) (work : Outcome J E) : Outcome J E :=
  if p.rosterLock = some t then work
  else if p.rosterLock = none then some ({ p with rosterLock := some t }, [])
  else none

def answer (p : Pool J) (t : Nat) (r : Reply) : Outcome J E :=
  some (p.setCall t none, [.returned r])

/-! ## The work loop -/

/-- A thread with the ledger at hand looks for work. A worker looks at the flag first.
The opener of the round leaves only if no job waits and none is under way. Who finds
nothing to do goes to sleep, which gives the lock back in the same step. -/
def lookForWork (p : Pool J) (t : Nat) (role : Role) : Outcome J E :=
  let l := p.ledger
  if role = .worker ∧ l.shuttingDown then
    some ((p.leaveLedger l).setDuty t (.looping role (.leaving true)), [])
  else if !l.pending.isEmpty then
    some ((p.leaveLedger l.take).setDuty t (.looping role (.executing (.start l.batch))),
      [.took role l.batch])
  else if role ≠ .worker ∧ l.todo = 0 then
    some ((p.leaveLedger l.closeRound).setDuty t (.looping role (.leaving l.allOk)),
      [.drained l.allOk])
  else
    some ((p.leaveLedger l.fallAsleep).setDuty t (.looping role .asleep), [])

def afterLoop (verdict : Bool) : Role → Duty J
  | .worker => .finished
  | .owner why => .completing verdict why

def stepLoop (p : Pool J) (t : Nat) (role : Role) : LoopStage J → Move J E → Outcome J E
  | .entering, .advance =>
    p.withLedger t
      (some ((p.leaveLedger p.ledger.enter).setDuty t (.looping role .taking), []))
  | .taking, .advance => p.withLedger t (p.lookForWork t role)
  | .asleep, .stir => some (p.setDuty t (.looping role .waking), [])
  | .waking, .advance =>
    -- Who is back has the lock already, and looks for work with it.
    if p.ledgerLock = none then
      some ({ p with ledger := p.ledger.wakeUp, ledgerLock := some t }.setDuty t
        (.looping role .taking), [])
    else none
  | .executing x, .work d =>
    match x.step d with
    | some (y, e) => some (p.setDuty t (.looping role (.executing y)), [.job e])
    | none => none
  | .executing x, .advance =>
    if x.finished then
      some (p.setDuty t (.looping role (.reporting x.tally)), [.executed role x.tally])
    else none
  | .reporting tally, .advance =>
    let l := p.ledger.report tally
    p.withLedger t
      (some ((p.leaveLedger l).setDuty t
        (.looping role (if l.todo = 0 then .rousing else .taking)), [.reported tally]))
  | .rousing, .advance => some (p.rouseAll.setDuty t (.looping role .taking), [])
  | .leaving verdict, .advance =>
    p.withLedger t
      (some ((p.leaveLedger p.ledger.leave).setDuty t (afterLoop verdict role), []))
  | _, _ => none

/-! ## Rounds -/

def stepOpening (p : Pool J) (t : Nat) : OpeningStage → Outcome J E
  | .slot =>
    if p.slot = none then
      some ({ p with slot := some t }.setDuty t (.opening .ledger), [])
    else none
  | .ledger =>
    p.withLedger t
      (some ((p.leaveLedger p.ledger.openRound).setDuty t (.opening .logging), []))
  | .logging => some ((p.setRound t (some {})).setDuty t .client, [.opened])

/-- Rouses one sleeper, whichever it is; nobody is roused only if nobody sleeps. -/
def rouseOne (p : Pool J) : Option Nat → Option (Pool J)
  | none => if p.nobodyAsleep then some p else none
  | some u =>
    if (p.thread u).isAsleep then some (p.setThread u (p.thread u).roused) else none

/-- A drained round is logged, and its verdict is noted for the next time it is asked
for. -/
def complete (p : Pool J) (t : Nat) (r : Round) (verdict : Bool) : Occasion → Outcome J E
  | .waiting =>
    some ((p.setRound t (some { r with verdict := some verdict })).setDuty t .client,
      [.completed r.added verdict, .returned (.verdict verdict)])
  | .closing unwinding =>
    some ((p.setRound t (some { r with verdict := some verdict })).setDuty t
      (.releasing unwinding), [.completed r.added verdict])

def release (p : Pool J) (t : Nat) (unwinding : Bool) : Pool J :=
  ({ p with slot := none, poisoned := p.poisoned || unwinding }.setRound t none).setDuty
    t .client

/-- A step of a client that has a round open. Adding nothing does nothing, and neither
does asking again for a verdict that is at hand. -/
def stepRound (p : Pool J) (t : Nat) (r : Round) : Move J E → Outcome J E
  | .add jobs =>
    if jobs.isEmpty then some (p, [])
    else
      some ((p.setRound t (some { added := r.added + jobs.length })).setDuty t
        (.adding jobs), [])
  | .wait =>
    match r.verdict with
    | some verdict => some (p, [.returned (.verdict verdict)])
    | none => some (p.setDuty t (.looping (.owner .waiting) .entering), [])
  | .close unwinding =>
    match r.verdict with
    | some _ => some (p.setDuty t (.releasing unwinding), [])
    | none => some (p.setDuty t (.looping (.owner (.closing unwinding)) .entering), [])
  | _ => none

def stepDuty (p : Pool J) (t : Nat) (m : Move J E) : Outcome J E :=
  match (p.thread t).duty, m with
  | .client, .openRound =>
    if p.retired then none else some (p.setDuty t (.opening .slot), [])
  | .client, .tryOpen =>
    if p.retired then none
    else if p.slot = none then
      some ({ p with slot := some t }.setDuty t (.opening .ledger), [])
    else some (p, [.returned (.opened false)])
  | .client, m =>
    match (p.thread t).round with
    | some r => p.stepRound t r m
    | none => none
  | .opening stage, .advance => p.stepOpening t stage
  | .adding jobs, .advance =>
    p.withLedger t
      (some ((p.leaveLedger (p.ledger.push jobs)).setDuty t (.rousing (jobs.length != 1)),
        [.added jobs]))
  | .rousing true, .advance => some (p.rouseAll.setDuty t .client, [])
  | .rousing false, .rouse sleeper =>
    match p.rouseOne sleeper with
    | some q => some (q.setDuty t .client, [])
    | none => none
  | .looping _ (.executing x), .tryOpen =>
    if x.inJob ∧ p.slot ≠ none then some (p, [.returned (.opened false)]) else none
  | .looping role stage, m => p.stepLoop t role stage m
  | .completing verdict why, .advance =>
    match (p.thread t).round with
    | some r => p.complete t r verdict why
    | none => none
  | .releasing unwinding, .advance => some (p.release t unwinding, [.closed])
  | _, _ => none

/-! ## Operations on the pool as a whole -/

def startRefusal? (p : Pool J) : Option PoolError :=
  if p.ledger.shuttingDown then some .shutDown
  else if p.roster.isEmpty then none
  else some (.alreadyStarted p.roster.length)

def stepStart (p : Pool J) (t : Nat) (count : Nat) : StartStage → Move J E → Outcome J E
  | .roster, .advance =>
    if p.rosterLock = none then
      some ({ p with rosterLock := some t }.setCall t (some (.starting count .checking)),
        [])
    else none
  | .checking, .advance =>
    p.withLedger t
      (some ((p.leaveLedger p.ledger).setCall t
        (some (.starting count (match p.startRefusal? with
          | some e => .returning (.error e)
          | none => .spawning 0))), []))
  | .spawning started, .spawn w =>
    if started < count ∧ p.threads.length ≤ w then
      some (({ p with roster := p.roster ++ [w] }.setThread w
          { duty := .looping .worker .entering }).setCall t
          (some (.starting count (.spawning (started + 1)))),
        [.spawned w started])
    else none
  | .spawning started, .advance =>
    if started = count then some (p.setCall t (some (.starting count .logging)), [])
    else none
  | .logging, .advance =>
    p.withLedger t
      (some ((p.leaveLedger p.ledger).setCall t
        (some (.starting count (.returning (.ok ())))),
        [.started count p.ledger.batchSize]))
  | .returning result, .advance =>
    { p with rosterLock := none }.answer t (.started result)
  | _, _ => none

/-- A step toward stopped workers. The roster is given back before the first worker is
joined. -/
def stepStop (p : Pool J) (t : Nat) : StopStage → Outcome J E
  | .roster =>
    if p.rosterLock = none then
      some ({ p with rosterLock := some t }.setCall t (some (.stopping .flagging)), [])
    else none
  | .flagging =>
    p.withLedger t
      (some ((p.leaveLedger p.ledger.shutDown).setCall t (some (.stopping .rousing)),
        [.flagged]))
  | .rousing => some (p.rouseAll.setCall t (some (.stopping .collecting)), [.alarmed])
  | .collecting =>
    -- A second stop finds the roster empty and waits for nobody.
    let q := { p with roster := [], rosterLock := none }
    if p.roster.isEmpty then some (q.setCall t none, [.collected [], .returned .done])
    else
      some (q.setCall t (some (.stopping (.joining p.roster p.roster.length))),
        [.collected p.roster])
  | .joining [] count => some (p.setCall t none, [.stopped count, .returned .done])
  | .joining (w :: ws) count =>
    match (p.thread w).duty with
    | .finished => some (p.setCall t (some (.stopping (.joining ws count))), [.joined w])
    | _ => none

def stepCall (p : Pool J) (t : Nat) (c : Call) (m : Move J E) : Outcome J E :=
  match c, m with
  | .configuring n, .advance =>
    p.withLedger t ((p.leaveLedger (p.ledger.configure n)).answer t .done)
  | .readingBatchSize, .advance =>
    p.withLedger t ((p.leaveLedger p.ledger).answer t (.number p.ledger.batchSize))
  | .countingWorkers, .advance =>
    p.withRoster t ({ p with rosterLock := none }.answer t (.number p.roster.length))
  | .measuring none, .advance =>
    p.withRoster t
      (some ({ p with rosterLock := none }.setCall t
        (some (.measuring (some p.roster.length))), []))
  | .measuring (some workers), .advance =>
    p.withLedger t ((p.leaveLedger p.ledger).answer t (.metrics (p.measure workers)))
  | .starting count stage, m => p.stepStart t count stage m
  | .stopping stage, .advance => p.stepStop t stage
  | _, _ => none

/-- Nobody but `t` uses the pool: no round is open, and no other thread waits for one or
is inside an operation. Workers that look for work do not count. -/
def unusedBut (p : Pool J) (t : Nat) : Bool :=
  p.slot.isNone && (p.thread t).isClient &&
    p.threads.zipIdx.all fun (th, u) => u == t || (th.call.isNone && !th.opensRound)

def beginCall (p : Pool J) (t : Nat) : Request → Outcome J E
  | .configure n => some (p.setCall t (some (.configuring n)), [])
  | .batchSize => some (p.setCall t (some .readingBatchSize), [])
  | .workerThreads => some (p.setCall t (some .countingWorkers), [])
  | .metrics => some (p.setCall t (some (.measuring none)), [])
  | .start count => some (p.setCall t (some (.starting count .roster)), [])
  | .stop => some (p.setCall t (some (.stopping .roster)), [])
  | .retire =>
    if p.unusedBut t then
      some ({ p with retired := true }.setCall t (some (.stopping .roster)), [])
    else none

def step (p : Pool J) (t : Nat) (m : Move J E) : Outcome J E :=
  match (p.thread t).call, m with
  | some c, m => p.stepCall t c m
  | none, .request r =>
    if (p.thread t).atLiberty ∧ !p.retired then p.beginCall t r else none
  | none, m => p.stepDuty t m

end Pool

end CheckRounds
