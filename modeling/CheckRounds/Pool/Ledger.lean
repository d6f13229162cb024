import CheckRounds.Job.Verdict
/-!
What the threads of a pool share under one lock: the jobs that wait, the counts of the
round, the counts of the threads that take part, and the totals of the pool.

`pending` shrinks when a batch is taken, `todo` and the totals change only when a whole
batch is reported. The size of a batch follows from the ledger alone: toward the end of
a round the jobs that are left are spread over the threads that take part, those without
work counted twice.
-/

namespace CheckRounds

structure Ledger (J : Type) where
  /-- Jobs that were added and not yet taken, the next one first. -/
  pending : List J := []
  /-- Jobs of the round that were added and not yet reported. -/
  todo : Nat := 0
  /-- No job reported in the round failed. -/
  allOk : Bool := true
  shuttingDown : Bool := false
  /-- The most jobs of one batch. -/
  batchSize : Nat
  participants : Nat := 0
  /-- Those of them that wait for work. -/
  idle : Nat := 0
  roundsCompleted : Nat := 0
  jobsExecuted : Nat := 0
  jobsFailed : Nat := 0
  jobsCrashed : Nat := 0

namespace Ledger

variable {J : Type}

/-- A batch holds at least one job, so zero is taken as one. -/
def usableBatchSize (n : Nat) : Nat := max n 1

def new (batchSize : Nat) : Ledger J := { batchSize := usableBatchSize batchSize }

/-- How many of `waiting` jobs one thread may take. -/
def share (waiting batchSize participants idle : Nat) : Nat :=
  min (max (min (waiting / (participants + idle + 1)) batchSize) 1) waiting

def portion (l : Ledger J) : Nat :=
  share l.pending.length l.batchSize l.participants l.idle

def batch (l : Ledger J) : List J := l.pending.take l.portion

def take (l : Ledger J) : Ledger J := { l with pending := l.pending.drop l.portion }

def push (l : Ledger J) (jobs : List J) : Ledger J :=
  { l with pending := l.pending ++ jobs, todo := l.todo + jobs.length }

def report (l : Ledger J) (t : Tally) : Ledger J :=
  { l with
    todo := l.todo - t.executed
    allOk := l.allOk && t.ok
    jobsExecuted := l.jobsExecuted + t.executed
    jobsFailed := l.jobsFailed + t.failed
    jobsCrashed := l.jobsCrashed + t.crashed }

def openRound (l : Ledger J) : Ledger J := { l with allOk := true }

/-- A drained round ends; its verdict is the `allOk` of the ledger before. -/
def closeRound (l : Ledger J) : Ledger J :=
  { l with allOk := true, roundsCompleted := l.roundsCompleted + 1 }

def enter (l : Ledger J) : Ledger J := { l with participants := l.participants + 1 }

def leave (l : Ledger J) : Ledger J := { l with participants := l.participants - 1 }

def fallAsleep (l : Ledger J) : Ledger J := { l with idle := l.idle + 1 }

def wakeUp (l : Ledger J) : Ledger J := { l with idle := l.idle - 1 }

def configure (l : Ledger J) (n : Nat) : Ledger J :=
  { l with batchSize := usableBatchSize n }

def shutDown (l : Ledger J) : Ledger J := { l with shuttingDown := true }

/-! ## What the operations do to the jobs and the counts -/

@[simp] theorem pending_push (l : Ledger J) (jobs : List J) :
    (l.push jobs).pending = l.pending ++ jobs := rfl

@[simp] theorem todo_push (l : Ledger J) (jobs : List J) :
    (l.push jobs).todo = l.todo + jobs.length := rfl

@[simp] theorem pending_report (l : Ledger J) (t : Tally) :
    (l.report t).pending = l.pending := rfl

@[simp] theorem todo_report (l : Ledger J) (t : Tally) :
    (l.report t).todo = l.todo - t.executed := rfl

@[simp] theorem todo_take (l : Ledger J) : l.take.todo = l.todo := rfl

theorem share_le (waiting batchSize participants idle : Nat) :
    share waiting batchSize participants idle ≤ waiting := Nat.min_le_right _ _

theorem one_le_share {waiting : Nat} (batchSize participants idle : Nat)
    (h : 0 < waiting) :
    1 ≤ share waiting batchSize participants idle := by
  unfold share
  omega

theorem portion_le (l : Ledger J) : l.portion ≤ l.pending.length := share_le _ _ _ _

theorem batch_append_pending_take (l : Ledger J) :
    l.batch ++ l.take.pending = l.pending :=
  List.take_append_drop _ _

theorem length_batch (l : Ledger J) : l.batch.length = l.portion := by
  rw [batch, List.length_take, Nat.min_eq_left l.portion_le]

theorem batch_ne_nil {l : Ledger J} (h : l.pending ≠ []) : l.batch ≠ [] := by
  have : 1 ≤ l.portion := one_le_share _ _ _ (List.length_pos_iff.2 h)
  intro hb
  have hl := l.length_batch
  rw [hb] at hl
  simp at hl
  omega

theorem one_le_usableBatchSize (n : Nat) : 1 ≤ usableBatchSize n := Nat.le_max_right _ _

end Ledger

end CheckRounds
