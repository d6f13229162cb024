import CheckRounds.Settings.Basic
import CheckRounds.Json.Skip
import CheckRounds.Decimal.Floating
import CheckRounds.Text.Quoted
/-!
Settings as JSON text.

`Settings.render` writes the compact object with both fields. `Settings.parse` reads an
object whose known fields may come in any order, once each, among unknown members with
any values, or an array that gives the fields in order; what is absent keeps its
default. A text that is not JSON is malformed. A text whose shape is wrong is refused
where the wrong part is met, reading left to right, so what stands behind it is not
looked at.
-/

namespace CheckRounds

/-- The fields of settings, in the order in which an array gives them. -/
inductive Settings.Field where
  | batchSize
  | workerThreads
  deriving DecidableEq

namespace Settings

def Field.key : Field → List Char
  | .batchSize => "batch_size".toList
  | .workerThreads => "worker_threads".toList

def Field.ofKey? (key : List Char) : Option Field :=
  if key = Field.batchSize.key then some .batchSize
  else if key = Field.workerThreads.key then some .workerThreads
  else none

/-! ## What is refused -/

inductive Found where
  | null
  | boolean (b : Bool)
  | integer (n : Int)
  | floating (x : Float)
  | text (s : List Char)
  | sequence
  | map

inductive Expected where
  | size
  | settings

inductive ReadError where
  /-- The text is not JSON, or breaks off, or goes on behind the settings. -/
  | malformed
  | duplicate (field : Field)
  | wrongKind (found : Found) (expected : Expected)
  | negative (n : Int)

def Found.phrase : Found → String
  | null => "null"
  | boolean b => "boolean `" ++ (if b then "true" else "false") ++ "`"
  | integer n => "integer `" ++ toString n ++ "`"
  | floating x => "floating point `" ++ String.ofList (Decimal.floatText x) ++ "`"
  | text s => "string " ++ String.ofList (Text.quoted s)
  | sequence => "sequence"
  | map => "map"

def Expected.phrase : Expected → String
  | size => "usize"
  | settings => "struct CheckQueueConfig"

/-- The sentence shown for a text of the wrong shape; a malformed text has none. -/
def ReadError.message? : ReadError → Option String
  | malformed => none
  | duplicate field => some ("duplicate field `" ++ String.ofList field.key ++ "`")
  | wrongKind found expected =>
    some ("invalid type: " ++ found.phrase ++ ", expected " ++ expected.phrase)
  | negative n => some ("invalid value: integer `" ++ toString n ++ "`, expected usize")

/-! ## Reading -/

open Json (Rest next?)

/-- The refusal of a value that begins with `c` and is no number. A literal or a string
is read to its end first, and counts as malformed if it is; an array or object is
refused at its bracket. -/
def refuseKind (expected : Expected) (c : Char) (cs : List Char) : ReadError :=
  if c = '[' then .wrongKind .sequence expected
  else if c = '\x7b' then .wrongKind .map expected
  else if c = '"' then
    match Json.string? cs with
    | some (s, _) => .wrongKind (.text s) expected
    | none => .malformed
  else if (Json.skipLiteral? c cs).isSome then
    if c = 'n' then .wrongKind .null expected
    else .wrongKind (.boolean (c = 't')) expected
  else .malformed

/-- What a numeral stands for, and what follows it; one beyond the floating range is
malformed. -/
def readNumber (cs : List Char) : Except ReadError (Json.Number × Rest cs) :=
  match Json.numeral? cs with
  | none => .error .malformed
  | some (numeral, r) =>
    match numeral.value? with
    | none => .error .malformed
    | some n => .ok (n, r)

def readSize (cs : List Char) : Except ReadError (UInt64 × Rest cs) :=
  match next? cs with
  | none => .error .malformed
  | some (c, r) =>
    if Json.startsNumeral c then
      match readNumber (c :: r.1) with
      | .error e => .error e
      | .ok (.natural n, s) => .ok (n, r.again s)
      | .ok (.negative n, _) => .error (.negative n)
      | .ok (.floating x, _) => .error (.wrongKind (.floating x) .size)
    else .error (refuseKind .size c r.1)

structure Fields where
  batchSize : Option UInt64 := none
  workerThreads : Option UInt64 := none

def Fields.get? (fs : Fields) : Field → Option UInt64
  | .batchSize => fs.batchSize
  | .workerThreads => fs.workerThreads

def Fields.set (fs : Fields) (value : UInt64) : Field → Fields
  | .batchSize => { fs with batchSize := some value }
  | .workerThreads => { fs with workerThreads := some value }

def Fields.complete (fs : Fields) : Settings :=
  { batchSize := fs.batchSize.getD ({} : Settings).batchSize
    workerThreads := fs.workerThreads.getD ({} : Settings).workerThreads }

def readField (fs : Fields) (field : Field) (cs : List Char) :
    Except ReadError (Fields × Rest cs) :=
  if (fs.get? field).isSome then .error (.duplicate field)
  else
    match next? cs with
    | some (':', r) =>
      match readSize r.1 with
      | .error e => .error e
      | .ok (n, s) => .ok (fs.set n field, r.andThen s)
    | _ => .error .malformed

def skipMember (cs : List Char) : Except ReadError (Rest cs) :=
  match next? cs with
  | some (':', r) =>
    match Json.skipValue? r.1 with
    | some s => .ok (r.andThen s)
    | none => .error .malformed
  | _ => .error .malformed

/-- What stands behind a key: the value of a known field is noted, and any other is read
over. A known field that was met before is refused before its colon. -/
def readMember (fs : Fields) (key cs : List Char) : Except ReadError (Fields × Rest cs) :=
  match Field.ofKey? key with
  | some field => readField fs field cs
  | none =>
    match skipMember cs with
    | .error e => .error e
    | .ok r => .ok (fs, r)

def readMembers (fs : Fields) (cs : List Char) : Except ReadError (Fields × List Char) :=
  match next? cs with
  | some ('"', r) =>
    match Json.string? r.1 with
    | none => .error .malformed
    | some (key, k) =>
      match readMember fs key k.1 with
      | .error e => .error e
      | .ok (gs, w) =>
        match next? w.1 with
        | some (',', s) => readMembers gs s.1
        | some ('\x7d', s) => .ok (gs, s.1)
        | _ => .error .malformed
  | _ => .error .malformed
termination_by cs.length
decreasing_by exact (r.andThen (k.andThen (w.andThen s))).2

def readObject (cs : List Char) : Except ReadError (Fields × List Char) :=
  match next? cs with
  | some ('\x7d', r) => .ok ({}, r.1)
  | _ => readMembers {} cs

def readElements (fs : Fields) (cs : List Char) :
    List Field → Except ReadError (Fields × List Char)
  | [] => .error .malformed
  | field :: fields =>
    match readSize cs with
    | .error e => .error e
    | .ok (n, r) =>
      match next? r.1 with
      | some (',', s) => readElements (fs.set n field) s.1 fields
      | some (']', s) => .ok (fs.set n field, s.1)
      | _ => .error .malformed

def readArray (cs : List Char) : Except ReadError (Fields × List Char) :=
  match next? cs with
  | some (']', r) => .ok ({}, r.1)
  | _ => readElements {} cs [.batchSize, .workerThreads]

def refuseSettings (c : Char) (cs : List Char) : ReadError :=
  if Json.startsNumeral c then
    match readNumber (c :: cs) with
    | .error e => e
    | .ok (.natural n, _) => .wrongKind (.integer n.toNat) .settings
    | .ok (.negative n, _) => .wrongKind (.integer n) .settings
    | .ok (.floating x, _) => .wrongKind (.floating x) .settings
  else refuseKind .settings c cs

def readSettings (cs : List Char) : Except ReadError (Fields × List Char) :=
  match next? cs with
  | none => .error .malformed
  | some (c, r) =>
    if c = '\x7b' then readObject r.1
    else if c = '[' then readArray r.1
    else .error (refuseSettings c r.1)

def parse (text : List Char) : Except ReadError Settings :=
  match readSettings text with
  | .error e => .error e
  | .ok (fs, rest) => if (next? rest).isNone then .ok fs.complete else .error .malformed

/-! ## Writing -/

def render (s : Settings) : List Char :=
  ['\x7b', '"'] ++ Field.batchSize.key ++ ['"',
    ':'] ++ Nat.toDigits 10 s.batchSize.toNat ++
    [',', '"'] ++ Field.workerThreads.key ++ ['"',
      ':'] ++ Nat.toDigits 10 s.workerThreads.toNat ++
    ['\x7d']

end Settings

end CheckRounds
