import CheckRounds.Job.Execution
import CheckRounds.PoolError
/-!
Where a thread is with respect to one pool.

A thread has a `duty`: it is a client, or it is inside the work loop, or inside one of
the operations of a round. On top of it there may be a `call`: an operation on the pool
as a whole, made by a client or by the job that the thread runs. Each constructor names
a point between two atomic steps; which locks the thread holds there is part of the
pool.
-/

namespace CheckRounds

inductive Occasion where
  | waiting
  /-- It closes the round without a verdict at hand; `unwinding` if it is crashing
  itself. -/
  | closing (unwinding : Bool)
  deriving DecidableEq

inductive Role where
  /-- A thread of the pool. It leaves when the pool is stopped. -/
  | worker
  /-- The opener of the round. It leaves when the round is drained. -/
  | owner (why : Occasion)
  deriving DecidableEq

inductive LoopStage (J : Type) where
  | entering
  /-- About to look for work, or looking for it. -/
  | taking
  | asleep
  /-- Roused, or awake without cause, and about to be back from its sleep. -/
  | waking
  | executing (x : Execution J)
  | reporting (tally : Tally)
  /-- The report drained the round; all sleepers have yet to be roused. -/
  | rousing
  /-- About to be counted out, with the verdict to leave with. -/
  | leaving (verdict : Bool)

inductive OpeningStage where
  | slot
  /-- Has the slot, and is about to reset the verdict. -/
  | ledger
  | logging
  deriving DecidableEq

inductive Duty (J : Type) where
  | client
  | opening (stage : OpeningStage)
  | adding (jobs : List J)
  /-- Jobs were added; one sleeper or all of them have yet to be roused. -/
  | rousing (everyone : Bool)
  | looping (role : Role) (stage : LoopStage J)
  /-- The round is drained; about to log it and note the verdict. -/
  | completing (verdict : Bool) (why : Occasion)
  | releasing (unwinding : Bool)
  | finished

/-- Points of the start of workers. All but the first hold the roster. -/
inductive StartStage where
  | roster
  | checking
  | spawning (started : Nat)
  | logging
  | returning (result : Except PoolError Unit)

inductive StopStage where
  | roster
  | flagging
  /-- Has the roster; all sleepers have yet to be roused. -/
  | rousing
  | collecting
  /-- Waits for the threads that it found there to finish; `count` is their number. -/
  | joining (threads : List Nat) (count : Nat)
  deriving DecidableEq

inductive Call where
  | configuring (batchSize : Nat)
  | readingBatchSize
  | countingWorkers
  /-- A snapshot: first the roster is counted, then the ledger is read. -/
  | measuring (workers : Option Nat)
  | starting (count : Nat) (stage : StartStage)
  | stopping (stage : StopStage)

structure Round where
  added : Nat := 0
  /-- The verdict of the last drain, unless jobs were added since. -/
  verdict : Option Bool := none
  deriving DecidableEq

structure Thread (J : Type) where
  duty : Duty J := .client
  call : Option Call := none
  /-- The open round, if this thread has opened one. -/
  round : Option Round := none

namespace Thread

variable {J : Type}

/-- The thread runs code of its own: it is a client, or in the code of a job. -/
def atLiberty (th : Thread J) : Bool :=
  match th.call, th.duty with
  | none, .client => true
  | none, .looping _ (.executing x) => x.inJob
  | _, _ => false

def isClient (th : Thread J) : Bool :=
  match th.call, th.duty with
  | none, .client => true
  | _, _ => false

def opensRound (th : Thread J) : Bool :=
  match th.duty with
  | .opening _ => true
  | _ => false

def participates (th : Thread J) : Bool :=
  match th.duty with
  | .looping _ .entering => false
  | .looping _ _ => true
  | _ => false

def sleeps (th : Thread J) : Bool :=
  match th.duty with
  | .looping _ .asleep => true
  | .looping _ .waking => true
  | _ => false

def isAsleep (th : Thread J) : Bool :=
  match th.duty with
  | .looping _ .asleep => true
  | _ => false

/-- The number of jobs that the thread has taken and not yet reported. -/
def inFlight (th : Thread J) : Nat :=
  match th.duty with
  | .looping _ (.executing x) => x.size
  | .looping _ (.reporting tally) => tally.executed
  | _ => 0

/-- A sleeper that is roused wakes; every other thread stays as it is. -/
def roused (th : Thread J) : Thread J :=
  match th.duty with
  | .looping role .asleep => { th with duty := .looping role .waking }
  | _ => th

def withDuty (th : Thread J) (d : Duty J) : Thread J := { th with duty := d }

def withCall (th : Thread J) (c : Option Call) : Thread J := { th with call := c }

@[simp] theorem duty_withDuty (th : Thread J) (d : Duty J) : (th.withDuty d).duty = d :=
  rfl

@[simp] theorem call_withDuty (th : Thread J) (d : Duty J) :
    (th.withDuty d).call = th.call := rfl

@[simp] theorem round_withDuty (th : Thread J) (d : Duty J) :
    (th.withDuty d).round = th.round := rfl

@[simp] theorem duty_withCall (th : Thread J) (c : Option Call) :
    (th.withCall c).duty = th.duty := rfl

@[simp] theorem call_withCall (th : Thread J) (c : Option Call) :
    (th.withCall c).call = c := rfl

@[simp] theorem round_withCall (th : Thread J) (c : Option Call) :
    (th.withCall c).round = th.round := rfl

@[simp] theorem call_roused (th : Thread J) : th.roused.call = th.call := by
  unfold roused
  split <;> rfl

@[simp] theorem round_roused (th : Thread J) : th.roused.round = th.round := by
  unfold roused
  split <;> rfl

end Thread

end CheckRounds
