import CheckRounds.Settings.Basic
/-!
From one signed number, the parallelism, to a count of workers.

A positive parallelism is the number of threads that verify, the caller included. Zero
means one for each core, and a negative number leaves that many cores free. The caller
takes part in every round, so it is taken off the total; the rest is kept between zero
and `maxWorkerThreads`.
-/

namespace CheckRounds

/-- A count of cores as a signed word; a count that does not fit stands at the largest
one. -/
def signedCores (cores : UInt64) : Int64 :=
  if cores < 0x8000000000000000 then cores.toInt64 else Int64.maxValue

/-- The threads that verify, the caller included, before any limit. -/
def verifyingThreads (parallelism : Int32) (cores : UInt64) : Int64 :=
  let wanted := parallelism.toInt64
  if wanted ≤ 0 then wanted + signedCores cores else wanted

def dedicatedWorkers (parallelism : Int32) (cores : UInt64) : UInt64 :=
  let others := verifyingThreads parallelism cores - 1
  if others ≤ 0 then 0 else min others.toUInt64 maxWorkerThreads

def Settings.ofParallelism (parallelism : Int32) (cores : UInt64) : Settings :=
  { workerThreads := dedicatedWorkers parallelism cores }

end CheckRounds
