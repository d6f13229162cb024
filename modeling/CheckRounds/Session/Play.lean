import CheckRounds.Pool.Configured
import CheckRounds.Session.Transcript
/-!
A session: its steps are carried out one after another by the first task, and after each
step the other tasks go on until every one of them is done or has to wait.

At the end the rounds that are still open are closed, in the order of their numbers and
as the steps close them, and then the pools are given up in the order of theirs.
-/

namespace CheckRounds.Session

open Json (Datum)

structure Script where
  view : View := {}
  steps : List Step

structure Stage where
  world : World := {}
  controls : List (Nat × Place) := []
  /-- The tasks with a round in the background, each with its pool, in the order of
  their start. -/
  background : List (Nat × Nat) := []
  nextJob : Nat := 0

inductive Result where
  | silent
  | reply
  | flag (b : Bool)
  | failure (e : PoolError)
  /-- Whether the task has a round open on the pool. -/
  | opened (pool task : Nat)
  | joined (tasks : List Nat)

/-- A step as far as it is known before it is carried out: the state with the changes
that need no task, the instructions, and what will be shown. -/
structure Plan where
  stage : Stage
  code : List Instruction := []
  result : Result := .silent

namespace Stage

def place (s : Stage) (c : Nat) : Place := (s.controls.lookup c).getD (.detached 0)

def setControl (s : Stage) (c : Nat) (place : Place) : Stage :=
  { s with controls := World.assign c place s.controls }

def removeControl (s : Stage) (c : Nat) : Stage :=
  { s with controls := s.controls.filter fun (k, _) => k != c }

def hasRound (s : Stage) (q : Nat) : Bool :=
  s.controls.any fun (_, place) => place == .pool q

def waitingAt (s : Stage) : Place → List Nat
  | .pool q => (s.background.filter fun (k, _) => k == q).map Prod.snd
  | .detached _ => []

def skipJobs (s : Stage) (n : Nat) : Stage := { s with nextJob := s.nextJob + n }

def openDetached (s : Stage) (c : Nat) : Stage :=
  { s with
    world := { s.world with rounds := s.world.rounds ++ [Detached.new] } }.setControl c
      (.detached s.world.rounds.length)

/-- A round of a task of its own. It is waited for at once, unless the steps have a
round open on the pool; then it is waited for when that one is closed. -/
def planBackground (s : Stage) (q : Nat) (entries : List Entry) : Plan :=
  let task := s.world.tasks.length
  let code := World.drive (.pool q) .openRound ++
    World.wholeRound (.pool q) [number s.nextJob entries] true
  let s :=
    { s with world := s.world.addTask callerName code }.skipJobs (countEntries entries)
  if s.hasRound q then
    { stage := { s with background := s.background ++ [(q, task)] }, result :=
      .opened q task }
  else { stage := s, code := [.join [task]], result := .joined [task] }

def closing (s : Stage) (c : Nat) (unwinding : Bool) : List Instruction :=
  let place := s.place c
  World.drive place (.close unwinding) ++ [.join (s.waitingAt place)]

/-- The close of a round, with the verdicts of those in its background. -/
def planClose (s : Stage) (c : Nat) (unwinding : Bool) : Plan :=
  let tasks := s.waitingAt (s.place c)
  { stage := { s.removeControl c with
      background := s.background.filter fun (_, task) => !tasks.contains task }
    code := s.closing c unwinding
    result := if tasks.isEmpty then .silent else .joined tasks }

def planNewWith (s : Stage) (q : Nat) (settings : Settings) : Plan :=
  match Pool.ofSettings settings with
  | .error e => { stage := s, result := .failure e }
  | .ok (pool, start) =>
    { stage := { s with world := s.world.setPool q pool }
      code := World.ask q start
      result := .reply }

def planRound (s : Stage) (q : Nat) (additions : List (List Entry)) (asking : Bool) :
    Plan :=
  { stage := s.skipJobs (countLists additions)
    code := World.drive (.pool q) .openRound ++
      World.wholeRound (.pool q) (numberLists s.nextJob additions) asking
    result := if asking then .reply else .silent }

def plan (s : Stage) : Step → Plan
  | .new q n => { stage := { s with world := s.world.setPool q (.new n) } }
  | .newWith q settings => s.planNewWith q settings
  | .configure q n => { stage := s, code := World.ask q (.configure n) }
  | .batchSize q => { stage := s, code := World.ask q .batchSize, result := .reply }
  | .workerThreads q =>
    { stage := s, code := World.ask q .workerThreads, result := .reply }
  | .metrics q => { stage := s, code := World.ask q .metrics, result := .reply }
  | .start q n => { stage := s, code := World.ask q (.start n), result := .reply }
  | .stop q none => { stage := s, code := World.ask q .stop }
  | .stop q (some g) =>
    { stage := s
      code := [.move (.pool q) (.request .stop), .see (.pool q) .joining, .openGate g,
        .see (.pool q) .answered] }
  | .drop q => { stage := s, code := World.ask q .retire }
  | .control c q =>
    { stage := s.setControl c (.pool q), code := World.drive (.pool q) .openRound }
  | .tryControl _ q =>
    { stage := s
      code := [.move (.pool q) .tryOpen, .see (.pool q) .decided]
      result := .reply }
  | .detached c => { stage := s.openDetached c }
  | .isAttached c =>
    { stage := s,
      result := .flag (match s.place c with | .pool _ => true | .detached _ => false) }
  | .add c entries =>
    { stage := s.skipJobs (countEntries entries)
      code := World.drive (s.place c) (.add (number s.nextJob entries)) }
  | .wait c => { stage := s, code := World.drive (s.place c) .wait, result := .reply }
  | .close c unwinding => s.planClose c unwinding
  | .round q additions asking => s.planRound q additions asking
  | .background q entries => s.planBackground q entries
  | .openGate g => { stage := s, code := [.openGate g] }

/-- What is left to do when a step was carried out: a round that was tried gets its
number unless it was refused, and a pool that was given up is gone. -/
def tidy (s : Stage) : Step → Stage
  | .tryControl c q =>
    match s.world.reply 0 with
    | .opened true => s.setControl c (.pool q)
    | _ => s
  | .drop q => { s with world := s.world.removePool q }
  | _ => s

/-- The first task carries out instructions, and the others go on as far as they can. -/
def run (fuel : Nat) (s : Stage) (code : List Instruction) : Stage :=
  { s with world := (s.world.setCode 0 code).settle fuel }

def collect (s : Stage) : List (Event Job Note) × Stage :=
  (s.world.seen.reverse, { s with world := { s.world with seen := [] } })

def hasOpened (s : Stage) (q task : Nat) : Bool :=
  match s.world.pool? q with
  | some p => p.slot == some task
  | none => false

def resultDatum (s : Stage) : Result → Datum
  | .silent => .null
  | .reply => replyDatum (s.world.reply 0)
  | .flag b => .boolean b
  | .failure e => errorDatum e
  | .opened q task => .record [("opened", .boolean (s.hasOpened q task))]
  | .joined tasks =>
    .record [("background", .list (tasks.map fun t => replyDatum (s.world.reply t)))]

def play (fuel : Nat) (s : Stage) (step : Step) : Stage × Datum × List (Event Job Note) :=
  let plan := s.plan step
  let done := plan.stage.run fuel plan.code
  let (es, s) := (done.tidy step).collect
  (s, done.resultDatum plan.result, es)

def ascending (ns : List Nat) : List Nat := ns.mergeSort fun a b => a ≤ b

/-- The end of a session: the open rounds are closed, each with the wait for those in
its background before the next one, and then the pools are given up. -/
def finish (fuel : Nat) (s : Stage) : List (Event Job Note) :=
  let closes := (ascending (s.controls.map Prod.fst)).flatMap fun c => s.closing c false
  let s := s.run fuel closes
  let drops := (ascending (s.world.pools.map Prod.fst)).flatMap fun q =>
    World.ask q .retire
  (s.run fuel drops).collect.1

end Stage

namespace Script

/-- A bound on the steps of tasks between two steps of the script. Every job and act,
and every wake of a worker that they cause, takes a bounded number of them. -/
def fuel (s : Script) : Nat :=
  let size := weigh s.steps + 8
  64 * size * size

def stepDatum (v : View) (result : Datum) (es : List (Event Job Note)) : Datum :=
  match v.entries es with
  | [] => .record [("r", result)]
  | entries => .record [("r", result), ("ev", .list entries)]

def playSteps (v : View) (fuel : Nat) (s : Stage) : List Step → List Datum × List Datum
  | [] => ([], v.entries (s.finish fuel))
  | step :: steps =>
    let (s', result, es) := s.play fuel step
    let (rest, last) := playSteps v fuel s' steps
    (stepDatum v result es :: rest, last)

def transcript (s : Script) : Datum :=
  let (steps, last) := playSteps s.view s.fuel {} s.steps
  .record [("steps", .list steps), ("end", .list last)]

end Script

end CheckRounds.Session
