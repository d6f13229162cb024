import CheckRounds.Pool.Event
/-!
A round without a pool: its jobs are carried out on the spot, by the thread that adds
them.

It takes the same moves as the opener of a round on a pool and shows the same events,
except that there is no ledger, so no batch is taken, reported or logged. A verdict
covers the jobs added since the last verdict.
-/

namespace CheckRounds

structure Detached (J : Type) where
  added : Nat := 0
  allOk : Bool := true
  /-- The verdict of the last drain, unless jobs were added since. -/
  verdict : Option Bool := none
  work : Option (Execution J) := none
  closed : Bool := false

namespace Detached

variable {J E : Type}

def new : Detached J := {}

/-- The drain of a round whose jobs are all done; the count of failures begins anew. -/
def drain (d : Detached J) : Detached J × Event J E :=
  ({ d with verdict := some d.allOk, allOk := true }, .completed d.added d.allOk)

def stepIdle (d : Detached J) : Move J E → Option (Detached J × List (Event J E))
  | .add jobs =>
    if jobs.isEmpty then some (d, [])
    else
      some ({ d with
        verdict := none, added := d.added + jobs.length, work := some (.start jobs) }, [])
  | .wait =>
    match d.verdict with
    | some verdict => some (d, [.returned (.verdict verdict)])
    | none => let (e, log) := d.drain; some (e, [log, .returned (.verdict d.allOk)])
  | .close _ =>
    match d.verdict with
    | some _ => some ({ d with closed := true }, [.closed])
    | none => let (e, log) := d.drain; some ({ e with closed := true }, [log, .closed])
  | _ => none

def step (d : Detached J) (m : Move J E) : Option (Detached J × List (Event J E)) :=
  match d.work, m with
  | none, m => if d.closed then none else d.stepIdle m
  | some x, .work deed =>
    match x.step deed with
    | some (y, e) => some ({ d with work := some y }, [.job e])
    | none => none
  | some x, .advance =>
    if x.finished then some ({ d with work := none, allOk := d.allOk && x.tally.ok }, [])
    else none
  | some _, _ => none

end Detached

end CheckRounds
