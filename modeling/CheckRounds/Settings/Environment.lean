import CheckRounds.Settings.Parallelism
import CheckRounds.Text.Blank
import CheckRounds.Text.Numeral
/-!
Settings from two environment variables.

A variable holds bytes. It counts only if the bytes are UTF-8 and, blanks at both ends
removed, write a number that fits; in every other case its default stands, whatever the
other one holds.
-/

namespace CheckRounds

structure Environment where
  parallelism : Option ByteArray := none
  batchSize : Option ByteArray := none

namespace Environment

/-- The characters of a value without the blanks at its ends; nothing if the value is
unset or is not UTF-8. -/
def characters? (value : Option ByteArray) : Option (List Char) :=
  match value with
  | none => none
  | some bytes =>
    match String.fromUTF8? bytes with
    | none => none
    | some text => some (Text.trim text.toList)

def read? {α : Type} (reader : List Char → Option α) (value : Option ByteArray) :
    Option α :=
  (characters? value).bind reader

end Environment

/-- Settings from the environment of a machine with that many cores. A batch of no jobs
is taken as one job. -/
def Settings.ofEnvironment (env : Environment) (cores : UInt64) : Settings :=
  let parallelism :=
    (Environment.read? Text.readInt32? env.parallelism).getD defaultParallelism
  let batchSize :=
    (Environment.read? Text.readUInt64? env.batchSize).getD defaultBatchSize
  (Settings.ofParallelism parallelism cores).withBatchSize (max batchSize 1)

end CheckRounds
