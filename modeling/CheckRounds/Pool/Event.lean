import CheckRounds.Pool.Thread
/-!
What a thread may do next, and what can be seen of it.

A `Move` is a thread's next step: a request of its own code, or the step that its
current operation takes by itself. An `Event` is what that step leaves in the history;
some events are log entries, and `returned` is the answer to a request.
-/

namespace CheckRounds

inductive Request where
  | configure (batchSize : Nat)
  | batchSize
  | workerThreads
  | metrics
  | start (count : Nat)
  | stop
  /-- The pool is given up; nobody else uses it any more. -/
  | retire
  deriving DecidableEq

structure Metrics where
  workerThreads : Nat
  batchSize : Nat
  pending : Nat
  todo : Nat
  idle : Nat
  roundsCompleted : Nat
  jobsExecuted : Nat
  jobsFailed : Nat
  jobsCrashed : Nat
  shuttingDown : Bool
  deriving DecidableEq

inductive Reply where
  | done
  | number (n : Nat)
  | metrics (m : Metrics)
  | started (result : Except PoolError Unit)
  /-- Whether a round could be opened at once. -/
  | opened (ok : Bool)
  | verdict (ok : Bool)

inductive Move (J E : Type) where
  | request (r : Request)
  | openRound
  /-- Opens a round if the slot is free. -/
  | tryOpen
  | add (jobs : List J)
  | wait
  | close (unwinding : Bool)
  | advance
  /-- One sleeper is roused: the one given, or none when nobody sleeps. -/
  | rouse (sleeper : Option Nat)
  | spawn (thread : Nat)
  /-- The sleeper wakes without having been roused. -/
  | stir
  | work (d : Deed E)

/-- What can be seen of a step. -/
inductive Event (J E : Type) where
  | opened
  | added (jobs : List J)
  | took (role : Role) (batch : List J)
  | job (e : JobEvent J E)
  | executed (role : Role) (tally : Tally)
  | reported (tally : Tally)
  | drained (verdict : Bool)
  /-- Log: a round was drained; `jobs` were added to it so far. -/
  | completed (jobs : Nat) (verdict : Bool)
  | closed
  /-- A worker started as this thread, the `index`-th one of its pool. -/
  | spawned (thread index : Nat)
  | started (workers batchSize : Nat)
  | flagged
  /-- All sleepers were roused after the flag was set. -/
  | alarmed
  | collected (threads : List Nat)
  | joined (thread : Nat)
  | stopped (workers : Nat)
  | returned (r : Reply)

end CheckRounds
