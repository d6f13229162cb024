import CheckRounds.Pool.Ledger
import CheckRounds.Pool.Thread
import CheckRounds.Pool.Event
/-!
A pool: the ledger with its lock and its sleepers, the roster of workers with its lock,
and the slot that the opener of a round holds.

Threads are numbered. A number that the pool has not met yet belongs to a client with
nothing under way, so the list of threads says something only about those that ever did
something here.
-/

namespace CheckRounds

structure Pool (J : Type) where
  ledger : Ledger J
  /-- The thread that has the ledger. -/
  ledgerLock : Option Nat := none
  /-- The workers that were started and not yet collected. -/
  roster : List Nat := []
  rosterLock : Option Nat := none
  /-- The thread that has a round open, or is about to open one. -/
  slot : Option Nat := none
  /-- The slot was once given back by a thread that was crashing. Nothing depends on
  it. -/
  poisoned : Bool := false
  retired : Bool := false
  threads : List (Thread J) := []

namespace Pool

variable {J : Type}

def new (batchSize : Nat) : Pool J := { ledger := .new batchSize }

def thread (p : Pool J) (t : Nat) : Thread J := p.threads.getD t {}

/-- Replaces an item of a list, which grows as far as needed. -/
def put {α : Type} (pad : α) : List α → Nat → α → List α
  | [], 0, a => [a]
  | [], t + 1, a => pad :: put pad [] t a
  | _ :: as, 0, a => a :: as
  | b :: as, t + 1, a => b :: put pad as t a

def setThread (p : Pool J) (t : Nat) (th : Thread J) : Pool J :=
  { p with threads := put {} p.threads t th }

def setDuty (p : Pool J) (t : Nat) (d : Duty J) : Pool J :=
  p.setThread t ((p.thread t).withDuty d)

def setCall (p : Pool J) (t : Nat) (c : Option Call) : Pool J :=
  p.setThread t ((p.thread t).withCall c)

def setRound (p : Pool J) (t : Nat) (r : Option Round) : Pool J :=
  p.setThread t { p.thread t with round := r }

def rouseAll (p : Pool J) : Pool J := { p with threads := p.threads.map Thread.roused }

def nobodyAsleep (p : Pool J) : Bool := p.threads.all fun th => !th.isAsleep

def total {α : Type} (f : α → Nat) : List α → Nat
  | [] => 0
  | a :: as => f a + total f as

/-- A snapshot, with a count of workers that was read before. -/
def measure (p : Pool J) (workers : Nat) : Metrics :=
  { workerThreads := workers
    batchSize := p.ledger.batchSize
    pending := p.ledger.pending.length
    todo := p.ledger.todo
    idle := p.ledger.idle
    roundsCompleted := p.ledger.roundsCompleted
    jobsExecuted := p.ledger.jobsExecuted
    jobsFailed := p.ledger.jobsFailed
    jobsCrashed := p.ledger.jobsCrashed
    shuttingDown := p.ledger.shuttingDown }

/-! ## What the parts become when a thread changes -/

theorem getD_put {α : Type} (pad : α) (as : List α) (t u : Nat) (a : α) :
    (put pad as t a).getD u pad = if u = t then a else as.getD u pad := by
  induction t generalizing as u with
  | zero => cases as <;> cases u <;> simp [put]
  | succ t ih =>
    cases as with
    | nil =>
      cases u with
      | zero => simp [put]
      | succ u => simpa [put] using ih [] u
    | cons b as =>
      cases u with
      | zero => simp [put]
      | succ u => simpa [put] using ih as u

theorem thread_setThread (p : Pool J) (t u : Nat) (th : Thread J) :
    (p.setThread t th).thread u = if u = t then th else p.thread u := getD_put _ _ _ _ _

@[simp] theorem thread_setThread_self (p : Pool J) (t : Nat) (th : Thread J) :
    (p.setThread t th).thread t = th := by simp [thread_setThread]

theorem thread_setThread_of_ne (p : Pool J) {t u : Nat} (h : u ≠ t) (th : Thread J) :
    (p.setThread t th).thread u = p.thread u := by simp [thread_setThread, h]

@[simp] theorem ledger_setThread (p : Pool J) (t : Nat) (th : Thread J) :
    (p.setThread t th).ledger = p.ledger := rfl

@[simp] theorem ledger_setDuty (p : Pool J) (t : Nat) (d : Duty J) :
    (p.setDuty t d).ledger = p.ledger := rfl

@[simp] theorem ledger_setCall (p : Pool J) (t : Nat) (c : Option Call) :
    (p.setCall t c).ledger = p.ledger := rfl

@[simp] theorem ledger_setRound (p : Pool J) (t : Nat) (r : Option Round) :
    (p.setRound t r).ledger = p.ledger := rfl

@[simp] theorem duty_setDuty (p : Pool J) (t : Nat) (d : Duty J) :
    ((p.setDuty t d).thread t).duty = d := by simp [setDuty, Thread.withDuty]

@[simp] theorem call_setCall (p : Pool J) (t : Nat) (c : Option Call) :
    ((p.setCall t c).thread t).call = c := by simp [setCall, Thread.withCall]

@[simp] theorem round_setRound (p : Pool J) (t : Nat) (r : Option Round) :
    ((p.setRound t r).thread t).round = r := by simp [setRound]

@[simp] theorem thread_setDuty (p : Pool J) (t u : Nat) (d : Duty J) :
    (p.setDuty t d).thread u = if u = t then (p.thread t).withDuty d else p.thread u :=
  thread_setThread _ _ _ _

@[simp] theorem put_put {α : Type} (pad : α) (as : List α) (t : Nat) (a b : α) :
    put pad (put pad as t a) t b = put pad as t b := by
  induction t generalizing as with
  | zero => cases as <;> rfl
  | succ t ih => cases as <;> simp [put, ih]

theorem threads_setRound_setDuty (p : Pool J) (t : Nat) (r : Option Round) (d : Duty J) :
    ((p.setRound t r).setDuty t d).threads =
      put {} p.threads t { p.thread t with duty := d, round := r } := by
  have hself : (p.setRound t r).thread t = { p.thread t with round := r } :=
    thread_setThread_self _ _ _
  rw [setDuty, hself]
  exact put_put _ _ _ _ _

theorem isAsleep_of_nobodyAsleep {p : Pool J} (h : p.nobodyAsleep = true) (u : Nat) :
    (p.thread u).isAsleep = false := by
  unfold thread
  rw [List.getD_eq_getElem?_getD]
  cases hu : p.threads[u]? with
  | none => rfl
  | some th =>
    have hm := List.mem_of_getElem? hu
    simpa using List.all_eq_true.1 h th hm

theorem thread_rouseAll (p : Pool J) (u : Nat) :
    p.rouseAll.thread u = (p.thread u).roused := by
  unfold rouseAll thread
  simp only [List.getD_eq_getElem?_getD, List.getElem?_map]
  cases p.threads[u]? <;> rfl

/-- What a count over all threads becomes when one of them changes. -/
theorem total_put {α : Type} (pad : α) (f : α → Nat) (hf : f pad = 0) (as : List α)
    (t : Nat) (a : α) :
    total f (put pad as t a) + f (as.getD t pad) = total f as + f a := by
  induction t generalizing as with
  | zero => cases as <;> simp [put, total, hf, Nat.add_comm, Nat.add_left_comm]
  | succ t ih =>
    cases as with
    | nil => simpa [put, total, hf] using ih []
    | cons b as =>
      have := ih as
      simp only [put, total, List.getD_cons_succ] at this ⊢
      omega

end Pool

end CheckRounds
