import CheckRounds.Job.Verdict
/-!
One thread carries out a batch, job after job.

Each job is called, then released, and a crash at either point is caught and logged;
only then does the next job begin. What the job does while it is called or released is
not decided here: its effects, its answer and the crash of its release come in as deeds.
A job that crashes at both points has no continuation.
-/

namespace CheckRounds

inductive Phase (J : Type) where
  | between
  | calling (job : J)
  /-- In the release of a job whose call gave this. -/
  | releasing (job : J) (answer : Except Payload Bool)
  /-- About to log a crash that was caught. -/
  | crashed (payload : Payload)

structure Execution (J : Type) where
  tally : Tally := {}
  phase : Phase J := .between
  /-- The jobs that were not called yet. -/
  rest : List J

inductive Deed (E : Type) where
  /-- The thread goes on by itself: it calls the next job, or logs a crash. -/
  | proceed
  | effect (e : E)
  | conclude (answer : Except Payload Bool)
  | discard (crash : Option Payload)

inductive JobEvent (J E : Type) where
  | called (job : J)
  | effect (e : E)
  | concluded (job : J) (answer : Except Payload Bool)
  /-- The release has ended, and with it how the job behaved at its two points. -/
  | released (job : J) (fate : Fate)
  | crashLogged (payload : Payload)

namespace Execution

variable {J E : Type}

def start (batch : List J) : Execution J := { rest := batch }

def finished (x : Execution J) : Bool :=
  match x.phase, x.rest with
  | .between, [] => true
  | _, _ => false

def current? (x : Execution J) : Option J :=
  match x.phase with
  | .calling j => some j
  | .releasing j _ => some j
  | _ => none

def inJob (x : Execution J) : Bool := x.current?.isSome

/-- Where the release of a job leads: to the log if the job crashed, else to the next
job. -/
def afterRelease (x : Execution J) :
    Except Payload Bool → Option Payload → Option (Execution J)
  | .ok b, none => some { x with phase := .between, tally := x.tally.count (.ofAnswer b) }
  | .ok _, some payload => some { x with phase := .crashed payload }
  | .error payload, none => some { x with phase := .crashed payload }
  | .error _, some _ => none

def step (x : Execution J) (d : Deed E) : Option (Execution J × JobEvent J E) :=
  match x.phase, d with
  | .between, .proceed =>
    match x.rest with
    | [] => none
    | j :: rest => some ({ x with phase := .calling j, rest }, .called j)
  | .calling j, .conclude answer =>
    some ({ x with phase := .releasing j answer }, .concluded j answer)
  | .releasing j answer, .discard crash =>
    (x.afterRelease answer crash).map fun y => (y, .released j ⟨answer, crash⟩)
  | .crashed payload, .proceed =>
    some ({ x with phase := .between, tally := x.tally.count .crashed },
      .crashLogged payload)
  | .calling _, .effect e => some (x, .effect e)
  | .releasing _ _, .effect e => some (x, .effect e)
  | _, _ => none

@[simp] theorem rest_start (batch : List J) : (start batch).rest = batch := rfl

@[simp] theorem tally_start (batch : List J) : (start batch).tally = {} := rfl

/-- The jobs of the batch that have not ended. -/
def unfinished (x : Execution J) : Nat :=
  x.rest.length + match x.phase with
    | .between => 0
    | _ => 1

def size (x : Execution J) : Nat := x.tally.executed + x.unfinished

@[simp] theorem size_start (batch : List J) : (start batch).size = batch.length := by
  simp [size, unfinished, start]

theorem unfinished_of_finished {x : Execution J} (h : x.finished = true) :
    x.unfinished = 0 := by
  unfold finished at h
  split at h
  · rename_i hp hr
    simp [unfinished, hp, hr]
  · cases h

theorem size_step {x y : Execution J} {d : Deed E} {e : JobEvent J E}
    (h : x.step d = some (y, e)) : y.size = x.size := by
  unfold step at h
  split at h
  case h_1 hp =>
    split at h
    · cases h
    · rename_i hr
      cases h
      simp [size, unfinished, hp, hr]
  case h_2 hp =>
    cases h
    simp [size, unfinished, hp]
  case h_3 j answer crash hp =>
    cases answer <;> cases crash <;> simp [afterRelease] at h
    all_goals obtain ⟨rfl, rfl⟩ := h
    all_goals simp [size, unfinished, hp]
    all_goals omega
  case h_4 hp =>
    cases h
    simp [size, unfinished, hp]
    omega
  case h_5 => cases h; rfl
  case h_6 => cases h; rfl
  case h_7 => cases h

end Execution

end CheckRounds
