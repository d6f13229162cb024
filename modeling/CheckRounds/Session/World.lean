import CheckRounds.Detached
import CheckRounds.Pool.Step
import CheckRounds.Session.Numbering
/-!
The state of a session: pools, detached rounds, gates, and tasks that each carry out a
list of instructions.

A task changes a pool only by a step of the pool. `see` carries an operation on until a
goal: it makes the moves that the operation takes by itself, and where a job is to be
called it puts the instructions of that job in front.
-/

namespace CheckRounds.Session

inductive Place where
  | pool (q : Nat)
  | detached (k : Nat)
  deriving DecidableEq

inductive Topic where
  | peek
  | attempt
  | start
  | round
  deriving DecidableEq

inductive Note where
  | reply (topic : Topic) (id : Nat) (r : Reply)
  | who (name : String)

/-- How far an operation is to be carried on. -/
inductive Goal where
  | answered
  /-- The call has returned, or waits for workers to finish. -/
  | joining
  /-- The round is open, or was refused. -/
  | decided
  /-- The thread is done with the place. -/
  | quiet
  deriving DecidableEq

inductive Instruction where
  | move (place : Place) (m : Move Job Note)
  | see (place : Place) (goal : Goal)
  /-- Shows the last reply, in the name of the job that runs at a place. -/
  | note (place : Place) (topic : Topic) (id : Nat)
  | who (place : Place)
  | pass (gate : Nat)
  | openGate (gate : Nat)
  | awaitIdle (pool count : Nat)
  /-- Goes on with these if the last reply tells of an open round. -/
  | ifOpened (code : List Instruction)
  /-- Holds a detached round, and shows its verdict in the name of the job that runs at
  a place. -/
  | alone (place : Place) (id : Nat) (jobs : List Job)
  | join (tasks : List Nat)

structure Task where
  name : String
  code : List Instruction
  reply : Reply := .done

def callerName : String := "caller"

def workerName (index : Nat) : String := "checkqueue." ++ toString index

structure World where
  pools : List (Nat × Pool Job) := []
  rounds : List (Detached Job) := []
  gates : List Nat := []
  /-- The first task carries out the steps; the number of a task is that of its thread. -/
  tasks : List Task := [⟨callerName, [], .done⟩]
  /-- What was seen, the latest first. -/
  seen : List (Event Job Note) := []

namespace World

def pool? (w : World) (q : Nat) : Option (Pool Job) := w.pools.lookup q

def assign {α : Type} (key : Nat) (a : α) : List (Nat × α) → List (Nat × α)
  | [] => [(key, a)]
  | (k, b) :: rest => if k = key then (key, a) :: rest else (k, b) :: assign key a rest

def setPool (w : World) (q : Nat) (p : Pool Job) : World :=
  { w with pools := assign q p w.pools }

def removePool (w : World) (q : Nat) : World :=
  { w with pools := w.pools.filter fun (k, _) => k != q }

def updateTask (w : World) (t : Nat) (f : Task → Task) : World :=
  { w with tasks := w.tasks.modify t f }

def setCode (w : World) (t : Nat) (code : List Instruction) : World :=
  w.updateTask t fun task => { task with code }

def reply (w : World) (t : Nat) : Reply :=
  match w.tasks[t]? with
  | some task => task.reply
  | none => .done

def addTask (w : World) (name : String) (code : List Instruction) : World :=
  { w with tasks := w.tasks ++ [{ name, code }] }

/-- Takes notice of an event that came from task `t` at a pool. A worker that started
becomes a task that stays in its loop; an open round counts as a reply. -/
def notice (w : World) (t : Nat) (place : Place) (e : Event Job Note) : World :=
  let w := { w with seen := e :: w.seen }
  match e with
  | .returned r => w.updateTask t fun task => { task with reply := r }
  | .opened => w.updateTask t fun task => { task with reply := .opened true }
  | .spawned _ index => w.addTask (workerName index) [.see place .quiet]
  | _ => w

def noticeAll (w : World) (t : Nat) (place : Place) (es : List (Event Job Note)) :
    World :=
  es.foldl (fun w e => w.notice t place e) w

def perform (w : World) (t : Nat) (place : Place) (m : Move Job Note) : Option World :=
  match place with
  | .pool q =>
    match w.pool? q with
    | none => none
    | some p =>
      match p.step t m with
      | none => none
      | some (p', es) => some ((w.setPool q p').noticeAll t place es)
  | .detached k =>
    match w.rounds[k]? with
    | none => none
    | some d =>
      match d.step m with
      | none => none
      | some (d', es) =>
        some ({ w with rounds := w.rounds.set k d' }.noticeAll t place es)

/-! ## What an operation needs next -/

inductive Need where
  | nothing
  | move (m : Move Job Note)
  | job (j : Job)

def needOfBatch (x : Execution Job) : Need :=
  match x.current? with
  | some j => .job j
  | none => .move (if x.finished then .advance else .work .proceed)

/-- What comes next of a call, if the goal lies beyond it. Workers get the next free
number. -/
def needOfCall (fresh : Nat) (goal : Goal) : Call → Need
  | .starting count (.spawning started) =>
    .move (if started < count then .spawn fresh else .advance)
  | .stopping (.joining _ _) => if goal = .joining then .nothing else .move .advance
  | _ => .move .advance

def needAtPool (p : Pool Job) (fresh t : Nat) (goal : Goal) : Need :=
  match (p.thread t).call with
  | some c => needOfCall fresh goal c
  | none =>
    match goal, (p.thread t).duty with
    | .answered, _ => .nothing
    | .joining, _ => .nothing
    | .decided, .opening _ => .move .advance
    | .decided, _ => .nothing
    | .quiet, .client => .nothing
    | .quiet, .finished => .nothing
    | .quiet, .rousing false => .move (.rouse (p.threads.findIdx? Thread.isAsleep))
    | .quiet, .looping _ (.executing x) => needOfBatch x
    | .quiet, _ => .move .advance

def need (w : World) (t : Nat) (place : Place) (goal : Goal) : Need :=
  match place with
  | .pool q =>
    match w.pool? q with
    | none => .nothing
    | some p => needAtPool p w.tasks.length t goal
  | .detached k =>
    match (w.rounds[k]?).bind Detached.work with
    | none => .nothing
    | some x => needOfBatch x

/-! ## Instructions -/

/-- A request to a pool, carried on until it is answered. -/
def ask (q : Nat) (r : Request) : List Instruction :=
  [.move (.pool q) (.request r), .see (.pool q) .answered]

def drive (place : Place) (m : Move Job Note) : List Instruction :=
  [.move place m, .see place .quiet]

/-- A whole round that was opened before: all additions, the verdict if it is asked for,
the close. -/
def wholeRound (place : Place) (additions : List (List Job)) (asking : Bool) :
    List Instruction :=
  (additions.flatMap fun jobs => drive place (.add jobs)) ++
    (if asking then drive place .wait else []) ++ drive place (.close false)

/-- The instructions of one act of job `id`, which runs at a place; jobs of its own are
numbered from `next` on. -/
def actCode (place : Place) (id next : Nat) : Act → List Instruction
  | .peek q => ask q .metrics ++ [.note place .peek id]
  | .configure q n => ask q (.configure n)
  | .tryRound q =>
    [.move (.pool q) .tryOpen, .see (.pool q) .decided, .note place .attempt id,
      .ifOpened (drive (.pool q) (.close false))]
  | .start q n => ask q (.start n) ++ [.note place .start id]
  | .stop q => ask q .stop
  | .pass g => [.pass g]
  | .openGate g => [.openGate g]
  | .awaitIdle q n => [.awaitIdle q n]
  | .who => [.who place]
  | .round (some q) jobs =>
    drive (.pool q) .openRound ++ wholeRound (.pool q) [number next jobs] true ++
      [.note place .round id]
  | .round none jobs => [.alone place id (number next jobs)]

def actsCode (place : Place) (id next : Nat) : List Act → List Instruction
  | [] => []
  | act :: acts =>
    actCode place id next act ++ actsCode place id (next + countActs [act]) acts

def jobCode (place : Place) (j : Job) : List Instruction :=
  actsCode place j.id (j.id + 1) j.acts ++
    [.move place (.work (.conclude j.fate.answer)),
      .move place (.work (.discard j.fate.crash))]

def isDone (w : World) (t : Nat) : Bool :=
  match w.tasks[t]? with
  | some task => task.code.isEmpty
  | none => true

/-- The next instruction of task `t`, with those that follow it; nothing if the task has
to wait. -/
def carryOut (w : World) (t : Nat) (name : String) (rest : List Instruction) :
    Instruction → Option World
  | .move place m => (w.setCode t rest).perform t place m
  | .see place goal =>
    match w.need t place goal with
    | .nothing => some (w.setCode t rest)
    | .move m => w.perform t place m
    | .job j => some (w.setCode t (jobCode place j ++ .see place goal :: rest))
  | .note place topic id =>
    (w.setCode t rest).perform t place (.work (.effect (.reply topic id (w.reply t))))
  | .who place => (w.setCode t rest).perform t place (.work (.effect (.who name)))
  | .pass g => if w.gates.contains g then some (w.setCode t rest) else none
  | .openGate g => some { w.setCode t rest with gates := g :: w.gates }
  | .awaitIdle q n =>
    match w.pool? q with
    | some p => if n ≤ p.ledger.idle then some (w.setCode t rest) else none
    | none => none
  | .ifOpened code =>
    match w.reply t with
    | .opened true => some (w.setCode t (code ++ rest))
    | _ => some (w.setCode t rest)
  | .alone place id jobs =>
    let alone : Place := .detached w.rounds.length
    let w := { w with rounds := w.rounds ++ [Detached.new] }
    some (w.setCode t (wholeRound alone [jobs] true ++ .note place .round id :: rest))
  | .join tasks => if tasks.all w.isDone then some (w.setCode t rest) else none

def stepTask (w : World) (t : Nat) : Option World :=
  match w.tasks[t]? with
  | none => none
  | some task =>
    match task.code with
    | [] => none
    | i :: rest => w.carryOut t task.name rest i

def stepFirst (w : World) : Option World :=
  (List.range w.tasks.length).findSome? fun t => w.stepTask t

/-- Goes on until every task is done or has to wait, for `fuel` steps at most. -/
def settle : Nat → World → World
  | 0, w => w
  | fuel + 1, w =>
    match w.stepFirst with
    | none => w
    | some v => settle fuel v

end World

end CheckRounds.Session
