import CheckRounds.PoolError
/-!
The sizes of a pool: how many jobs are handed out at once and how many threads work
besides the caller. Any two words are settings; only `validate` refuses a count of
workers that is too large.
-/

namespace CheckRounds

def defaultBatchSize : UInt64 := 128

/-- The most workers that settings may ask for. -/
def maxWorkerThreads : UInt64 := 15

/-- The parallelism when nothing else is asked for: every core. -/
def defaultParallelism : Int32 := 0

def parallelismVariable : String := "OMNI_CHECKQUEUE_PAR"

def batchSizeVariable : String := "OMNI_CHECKQUEUE_BATCH_SIZE"

structure Settings where
  batchSize : UInt64 := defaultBatchSize
  workerThreads : UInt64 := 0
  deriving DecidableEq

namespace Settings

def withBatchSize (s : Settings) (n : UInt64) : Settings := { s with batchSize := n }

def withWorkerThreads (s : Settings) (n : UInt64) : Settings :=
  { s with workerThreads := n }

/-- Refuses more workers than `maxWorkerThreads`. The batch size is never refused, since
a pool takes zero as one. -/
def validate (s : Settings) : Except PoolError Unit :=
  if s.workerThreads > maxWorkerThreads then
    .error (.tooManyWorkers s.workerThreads.toNat maxWorkerThreads.toNat)
  else
    .ok ()

theorem validate_eq_ok_iff {s : Settings} :
    s.validate = .ok () ↔ s.workerThreads ≤ maxWorkerThreads := by
  unfold validate
  split
  · rename_i h
    exact ⟨fun h' => by simp at h', fun h' => absurd h (UInt64.not_lt.2 h')⟩
  · rename_i h
    exact ⟨fun _ => UInt64.not_lt.1 h, fun _ => rfl⟩

@[simp] theorem batchSize_withBatchSize (s : Settings) (n : UInt64) :
    (s.withBatchSize n).batchSize = n := rfl

@[simp] theorem workerThreads_withBatchSize (s : Settings) (n : UInt64) :
    (s.withBatchSize n).workerThreads = s.workerThreads := rfl

@[simp] theorem batchSize_withWorkerThreads (s : Settings) (n : UInt64) :
    (s.withWorkerThreads n).batchSize = s.batchSize := rfl

@[simp] theorem workerThreads_withWorkerThreads (s : Settings) (n : UInt64) :
    (s.withWorkerThreads n).workerThreads = n := rfl

end Settings

end CheckRounds
