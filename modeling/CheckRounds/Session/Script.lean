import CheckRounds.Job.Verdict
import CheckRounds.Settings.Basic
/-!
What a session consists of, as it is written down: steps over numbered pools, rounds and
gates, and the jobs that are added in them.

A job says what it does while it is called, how it ends, and how its release ends. Jobs
may hold rounds with jobs of their own. A list of jobs may hold many copies of one form.
-/

namespace CheckRounds.Session

inductive Release where
  | silent
  | shown
  /-- It leaves an entry and crashes with a text. -/
  | crashing (s : String)
  deriving DecidableEq

mutual

inductive JobForm where
  | mk (ok : Bool) (acts : List Act) (crash : Option Payload) (release : Release)

inductive Act where
  | peek (pool : Nat)
  | configure (pool batchSize : Nat)
  | tryRound (pool : Nat)
  | start (pool count : Nat)
  | stop (pool : Nat)
  | pass (gate : Nat)
  | openGate (gate : Nat)
  /-- Waits until that many threads of a pool are idle. -/
  | awaitIdle (pool count : Nat)
  | who
  /-- Holds a round of its own, on a pool or detached. -/
  | round (pool : Option Nat) (jobs : List Entry)

inductive Entry where
  | one (form : JobForm)
  | copies (n : Nat) (form : JobForm)

end

instance : Inhabited JobForm := ⟨.mk true [] none .silent⟩

instance : Inhabited Act := ⟨.who⟩

inductive Step where
  | new (pool batchSize : Nat)
  | newWith (pool : Nat) (settings : Settings)
  | configure (pool batchSize : Nat)
  | batchSize (pool : Nat)
  | workerThreads (pool : Nat)
  | metrics (pool : Nat)
  | start (pool count : Nat)
  /-- Stops the workers. The gate is opened when they are waited for. -/
  | stop (pool : Nat) (gate : Option Nat)
  | drop (pool : Nat)
  | control (control pool : Nat)
  | tryControl (control pool : Nat)
  | detached (control : Nat)
  | isAttached (control : Nat)
  | add (control : Nat) (jobs : List Entry)
  | wait (control : Nat)
  | close (control : Nat) (unwinding : Bool)
  /-- A whole round, with several additions, asking for its verdict or not. -/
  | round (pool : Nat) (additions : List (List Entry)) (asking : Bool)
  /-- A whole round of another thread. -/
  | background (pool : Nat) (jobs : List Entry)
  | openGate (gate : Nat)

end CheckRounds.Session
