/-!
How a job can end, and the count of ends in a batch.

A job answers yes or no, or it crashes with a payload. A crash counts as a failure.
`Tally` counts a batch: jobs that ended, those of them that failed, and those of the
failures that crashed.
-/

namespace CheckRounds

inductive Payload where
  /-- A text fixed in the program. -/
  | fixed (s : String)
  /-- A text made while running. -/
  | made (s : String)
  /-- Anything that is no text. -/
  | other
  deriving DecidableEq

def Payload.message : Payload → String
  | fixed s => s
  | made s => s
  | other => "non-string panic payload"

inductive Verdict where
  | passed
  | failed
  | crashed
  deriving DecidableEq

def Verdict.ok : Verdict → Bool
  | passed => true
  | failed => false
  | crashed => false

def Verdict.ofAnswer : Bool → Verdict
  | true => passed
  | false => failed

/-- How a job behaves at its two points: what the call gives, and the crash of its
release. -/
structure Fate where
  answer : Except Payload Bool
  crash : Option Payload := none

/-- A crash at either point overrules the answer. -/
def Fate.verdict : Fate → Verdict
  | ⟨.ok b, none⟩ => .ofAnswer b
  | _ => .crashed

structure Tally where
  executed : Nat := 0
  failed : Nat := 0
  crashed : Nat := 0
  deriving DecidableEq

namespace Tally

def count (t : Tally) : Verdict → Tally
  | .passed => { t with executed := t.executed + 1 }
  | .failed => { t with executed := t.executed + 1, failed := t.failed + 1 }
  | .crashed =>
    { executed := t.executed + 1, failed := t.failed + 1, crashed := t.crashed + 1 }

def ok (t : Tally) : Bool := t.failed == 0

@[simp] theorem executed_count (t : Tally) (v : Verdict) :
    (t.count v).executed = t.executed + 1 := by cases v <;> rfl

@[simp] theorem ok_count (t : Tally) (v : Verdict) : (t.count v).ok = (t.ok && v.ok) := by
  cases v <;> simp [count, ok, Verdict.ok]

def ofList (vs : List Verdict) : Tally := vs.foldl count {}

end Tally

end CheckRounds
