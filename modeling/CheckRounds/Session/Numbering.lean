import CheckRounds.Session.Script
/-!
The numbers of jobs.

Jobs are numbered in the order in which they are written: a job before the jobs of its
own rounds, and those before the next job of its list. So the number of a job follows
from the number of its list and from how many jobs are written before it.
-/

namespace CheckRounds.Session

mutual

def JobForm.count : JobForm → Nat
  | .mk _ acts _ _ => 1 + countActs acts

def countActs : List Act → Nat
  | [] => 0
  | .round _ jobs :: acts => countEntries jobs + countActs acts
  | _ :: acts => countActs acts

def countEntries : List Entry → Nat
  | [] => 0
  | .one form :: rest => form.count + countEntries rest
  | .copies n form :: rest => n * form.count + countEntries rest

end

structure Job where
  id : Nat
  form : JobForm

/-- The jobs of a list, the first of which gets the number `id`. -/
def number (id : Nat) : List Entry → List Job
  | [] => []
  | .one form :: rest => ⟨id, form⟩ :: number (id + form.count) rest
  | .copies n form :: rest =>
    let size := form.count
    (List.range n).map (fun i => ⟨id + i * size, form⟩) ++ number (id + n * size) rest

/-- The jobs of several lists, numbered one list after another. -/
def numberLists (id : Nat) : List (List Entry) → List (List Job)
  | [] => []
  | entries :: rest => number id entries :: numberLists (id + countEntries entries) rest

def countLists : List (List Entry) → Nat
  | [] => 0
  | entries :: rest => countEntries entries + countLists rest

namespace Job

def acts (j : Job) : List Act := match j.form with | .mk _ acts _ _ => acts

def release (j : Job) : Release := match j.form with | .mk _ _ _ release => release

def fate (j : Job) : Fate :=
  match j.form with
  | .mk ok _ crash release =>
    { answer := match crash with
        | none => .ok ok
        | some payload => .error payload
      crash := match release with
        | .crashing s => some (.made s)
        | _ => none }

end Job

mutual

/-- A measure of what a form sets going: its jobs, its acts, and the workers that it
starts. -/
def JobForm.weight : JobForm → Nat
  | .mk _ acts _ _ => 1 + weighActs acts

def weighActs : List Act → Nat
  | [] => 0
  | .round _ jobs :: acts => 1 + weighEntries jobs + weighActs acts
  | .start _ count :: acts => 1 + count + weighActs acts
  | _ :: acts => 1 + weighActs acts

def weighEntries : List Entry → Nat
  | [] => 0
  | .one form :: rest => form.weight + weighEntries rest
  | .copies n form :: rest => n * form.weight + weighEntries rest

end

def weighLists : List (List Entry) → Nat
  | [] => 0
  | entries :: rest => 1 + weighEntries entries + weighLists rest

def Step.weight : Step → Nat
  | .newWith _ settings => 1 + settings.workerThreads.toNat
  | .start _ count => 1 + count
  | .add _ jobs => 1 + weighEntries jobs
  | .round _ additions _ => 1 + weighLists additions
  | .background _ jobs => 1 + weighEntries jobs
  | _ => 1

def weigh : List Step → Nat
  | [] => 0
  | step :: rest => step.weight + weigh rest

@[simp] theorem length_number (id : Nat) (form : JobForm) :
    (number id [.one form]).length = 1 := rfl

end CheckRounds.Session
