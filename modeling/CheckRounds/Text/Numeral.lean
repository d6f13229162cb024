/-!
Whole numbers written in ASCII digits.

`natural?` reads a non-empty run of digits; leading zeros carry no meaning. The readers
of machine words allow one sign in front (`-` only where the word is signed) and refuse
a number that does not fit the word, rather than wrapping it.
-/

namespace CheckRounds.Text

def digitValue (c : Char) : Nat := c.toNat - '0'.toNat

/-- The value of a run of digits read after digits of value `v`. -/
def digitsValue (v : Nat) (cs : List Char) : Nat :=
  cs.foldl (fun v c => 10 * v + digitValue c) v

def natural? (cs : List Char) : Option Nat :=
  if cs ≠ [] ∧ cs.all Char.isDigit then some (digitsValue 0 cs) else none

def unsigned? : List Char → Option Nat
  | '+' :: cs => natural? cs
  | cs => natural? cs

def integer? : List Char → Option Int
  | '-' :: cs => (natural? cs).map fun n => -(n : Int)
  | cs => (unsigned? cs).map fun n => (n : Int)

def wordSize : Nat := 18446744073709551616

def signedBound : Int := 2147483648

/-- Reads an unsigned word of 64 bits; a number that does not fit is refused. -/
def readUInt64? (cs : List Char) : Option UInt64 :=
  match unsigned? cs with
  | some n => if n < wordSize then some (UInt64.ofNat n) else none
  | none => none

def readInt32? (cs : List Char) : Option Int32 :=
  match integer? cs with
  | some n => if -signedBound ≤ n ∧ n < signedBound then some (Int32.ofInt n) else none
  | none => none

end CheckRounds.Text
