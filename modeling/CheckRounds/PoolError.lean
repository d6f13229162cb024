/-!
The ways in which sizing or starting a pool is refused. A failed verification is a
verdict and is never one of these. That each thread which is asked for can be created is
taken for granted.
-/

namespace CheckRounds

inductive PoolError where
  | alreadyStarted (running : Nat)
  /-- The pool was stopped, and stopping is one-way. -/
  | shutDown
  | tooManyWorkers (requested limit : Nat)
  deriving DecidableEq

namespace PoolError

def kind : PoolError → String
  | alreadyStarted _ => "AlreadyStarted"
  | shutDown => "ShutDown"
  | tooManyWorkers _ _ => "Config"

def message : PoolError → String
  | alreadyStarted running =>
    "worker threads already started (" ++ toString running ++ " running)"
  | shutDown => "check queue is shut down"
  | tooManyWorkers requested limit =>
    "Configuration error: worker_threads=" ++ toString requested ++
      " exceeds maximum of " ++
      toString limit

end PoolError

end CheckRounds
