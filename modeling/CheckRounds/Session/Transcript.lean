import CheckRounds.Json.Datum
import CheckRounds.Session.World
/-!
The transcript of a session: which events are shown, and what they look like as data.

A log entry is shown if the session records its level, a call if the session records
calls, a release if the job asks for it. All other events of a pool stay out of sight.
-/

namespace CheckRounds.Session

open Json (Datum)

/-- Which log entries are recorded: each level includes those before it. -/
inductive LogLevel where
  | off
  | error
  | info
  | debug
  | trace
  deriving DecidableEq

namespace LogLevel

def rank : LogLevel → Nat
  | off => 0
  | error => 1
  | info => 2
  | debug => 3
  | trace => 4

def name : LogLevel → String
  | off => "off"
  | error => "error"
  | info => "info"
  | debug => "debug"
  | trace => "trace"

def records (recorded level : LogLevel) : Bool := level.rank ≤ recorded.rank

end LogLevel

structure View where
  level : LogLevel := .off
  /-- The entries of one step are put in the order of their texts. -/
  sorted : Bool := false
  calls : Bool := true

/-! ## Data -/

def metricsDatum (m : Metrics) : Datum :=
  .record [("worker_threads", .number m.workerThreads),
    ("batch_size", .number m.batchSize),
    ("pending", .number m.pending), ("todo", .number m.todo), ("idle", .number m.idle),
    ("rounds_completed", .number m.roundsCompleted),
    ("jobs_executed", .number m.jobsExecuted), ("jobs_failed", .number m.jobsFailed),
    ("jobs_panicked", .number m.jobsCrashed), ("shutting_down", .boolean m.shuttingDown)]

def errorDatum (e : PoolError) : Datum := .failure e.kind e.message

def outcomeDatum : Except PoolError Unit → Datum
  | .ok _ => .null
  | .error e => errorDatum e

def replyDatum : Reply → Datum
  | .done => .null
  | .number n => .number n
  | .metrics m => metricsDatum m
  | .started result => outcomeDatum result
  | .opened ok => .boolean ok
  | .verdict ok => .boolean ok

def Topic.word : Topic → String
  | peek => "peek"
  | attempt => "try"
  | start => "start"
  | round => "round"

def noteDatum : Note → Datum
  | .reply topic id r => .list [.text topic.word, .number id, replyDatum r]
  | .who name => .list [.text "who", .text name]

def roleWord : Role → String
  | .worker => "Worker"
  | .owner _ => "Master"

def logDatum (level : LogLevel) (message : String) (fields : List (String × Datum)) :
    Datum :=
  .list [.text "log", .text level.name, .text message, .record fields]

/-- The level, the message and the fields of an event that is a log entry. -/
def logEntry? : Event Job Note → Option (LogLevel × String × List (String × Datum))
  | .opened => some (.debug, "check round opened", [])
  | .completed jobs verdict =>
    some (.debug, "check round completed",
      [("jobs", .number jobs), ("all_ok", .boolean verdict)])
  | .executed role tally =>
    some (.trace, "check batch executed",
      [("role", .text (roleWord role)), ("batch", .number tally.executed),
        ("ok", .boolean tally.ok)])
  | .started workers batchSize =>
    some (.info, "check queue worker pool started",
      [("workers", .number workers), ("batch_size", .number batchSize)])
  | .stopped workers =>
    some (.info, "check queue worker pool stopped", [("workers", .number workers)])
  | .job (.crashLogged payload) =>
    some (.error, "check job panicked; counting it as failed",
      [("panic", .text payload.message)])
  | _ => none

/-- An event as data, if it is shown. -/
def View.show? (v : View) (e : Event Job Note) : Option Datum :=
  match logEntry? e with
  | some (level, message, fields) =>
    if v.level.records level then some (logDatum level message fields) else none
  | none =>
    match e with
    | .job (.called j) =>
      if v.calls then some (.list [.text "run", .number j.id]) else none
    | .job (.released j _) =>
      if j.release = .silent then none else some (.list [.text "release", .number j.id])
    | .job (.effect n) => some (noteDatum n)
    | _ => none

def sortByText (ds : List Datum) : List Datum :=
  ((ds.map fun d => (String.ofList d.render, d)).mergeSort
    fun a b => !(b.1 < a.1)).map Prod.snd

def View.entries (v : View) (es : List (Event Job Note)) : List Datum :=
  let ds := es.filterMap v.show?
  if v.sorted then sortByText ds else ds

end CheckRounds.Session
