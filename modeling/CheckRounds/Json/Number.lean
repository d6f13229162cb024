import CheckRounds.Json.Text
/-!
Numbers in JSON text.

`Numeral` is a number as it is written. `Numeral.value?` sorts it into the three kinds
that a reader tells apart: a number without sign, fraction or exponent that fits an
unsigned word, a negative integer that fits a signed one, and a floating number for all
the rest. The floating value is built from at most a word of digits and one scaling by a
power of ten, so its last place may differ from the nearest one. A value beyond the
floating range is no number at all.
-/

namespace CheckRounds.Json

structure Numeral where
  negative : Bool := false
  whole : List Char
  /-- The digits after the point; empty when there is no point. -/
  fraction : List Char := []
  /-- The sign (`true` for minus) and the digits of the exponent. -/
  exponent : Option (Bool × List Char) := none

inductive Number where
  | natural (n : UInt64)
  | negative (n : Int)
  | floating (x : Float)

def digits : (cs : List Char) → List Char × Tail cs
  | [] => ([], .whole [])
  | c :: cs =>
    if c.isDigit then
      let (ds, r) := digits cs
      (c :: ds, (r.after c).toTail)
    else ([], .whole (c :: cs))

def someDigits? : (cs : List Char) → Option (List Char × Rest cs)
  | [] => none
  | c :: cs =>
    if c.isDigit then
      let (ds, r) := digits cs
      some (c :: ds, r.after c)
    else none

/-- The digits before the point: a zero stands alone. -/
def wholePart? (cs : List Char) : Option (List Char × Rest cs) :=
  match someDigits? cs with
  | some (ds, r) => if ds.head? = some '0' ∧ ds.length ≠ 1 then none else some (ds, r)
  | none => none

def fractionPart? : (cs : List Char) → Option (List Char × Tail cs)
  | [] => some ([], .whole [])
  | c :: cs =>
    if c = '.' then
      match someDigits? cs with
      | some (ds, r) => some (ds, (r.after c).toTail)
      | none => none
    else some ([], .whole (c :: cs))

def exponentSign : (cs : List Char) → Bool × Tail cs
  | [] => (false, .whole [])
  | c :: cs =>
    if c = '-' then (true, (Rest.one c cs).toTail)
    else if c = '+' then (false, (Rest.one c cs).toTail)
    else (false, .whole (c :: cs))

def exponentPart? : (cs : List Char) → Option (Option (Bool × List Char) × Tail cs)
  | [] => some (none, .whole [])
  | c :: cs =>
    if c = 'e' ∨ c = 'E' then
      let (negative, r) := exponentSign cs
      match someDigits? r.1 with
      | some (ds, s) =>
        some (some (negative, ds), ((r.andPerhaps s.toTail).after c).toTail)
      | none => none
    else some (none, .whole (c :: cs))

def unsignedNumeral? (negative : Bool) (cs : List Char) : Option (Numeral × Rest cs) :=
  match wholePart? cs with
  | none => none
  | some (whole, r) =>
    match fractionPart? r.1 with
    | none => none
    | some (fraction, s) =>
      match exponentPart? s.1 with
      | none => none
      | some (exponent, t) =>
        some ({ negative, whole, fraction, exponent }, r.andPerhaps (s.andPerhaps t))

def numeral? : (cs : List Char) → Option (Numeral × Rest cs)
  | [] => none
  | c :: cs =>
    if c = '-' then
      match unsignedNumeral? true cs with
      | some (n, r) => some (n, r.after c)
      | none => none
    else unsignedNumeral? false (c :: cs)

def startsNumeral (c : Char) : Bool := c == '-' || c.isDigit

/-! ## The floating value -/

def maxWord : Nat := 18446744073709551615

def maxNegative : Nat := 9223372036854775808

def powerOfTen (n : Nat) : Float := OfScientific.ofScientific 1 false n

/-- Leading digits that fit a word, and the number of places that were dropped behind
them. -/
structure Leading where
  significand : Nat := 0
  places : Int := 0

/-- Takes the digits before the point: after the first one that does not fit, each one
is a dropped place. -/
def Leading.takeWhole (l : Leading) : List Char → Leading
  | [] => l
  | c :: cs =>
    let next := 10 * l.significand + Text.digitValue c
    if l.places = 0 ∧ next ≤ maxWord then { l with significand := next }.takeWhole cs
    else { l with places := l.places + 1 }.takeWhole cs

def Leading.takeFraction (l : Leading) : List Char → Leading
  | [] => l
  | c :: cs =>
    let next := 10 * l.significand + Text.digitValue c
    if next ≤ maxWord then
      { significand := next, places := l.places - 1 : Leading }.takeFraction cs
    else l

/-- `x` times ten to the power `places`, in steps that stay within the table of powers
up to 308. Three steps bring the largest word down to zero, so four are enough. Nothing
if the value is beyond the floating range. -/
def scale : Nat → Float → Int → Option Float
  | 0, x, _ => some x
  | steps + 1, x, places =>
    if places.natAbs ≤ 308 then
      if 0 ≤ places then
        let y := x * powerOfTen places.natAbs
        if y.isInf then none else some y
      else some (x / powerOfTen places.natAbs)
    else if x == 0.0 then some x
    else if 0 ≤ places then none
    else scale steps (x / powerOfTen 308) (places + 308)

/-- The exponent that a floating numeral may spell out; beyond it only the sign counts. -/
def maxExponent : Nat := 2147483647

def Numeral.magnitude? (n : Numeral) : Option Float :=
  let lead := (({} : Leading).takeWhole n.whole).takeFraction n.fraction
  let x := (UInt64.ofNat lead.significand).toFloat
  match n.exponent with
  | none => scale 4 x lead.places
  | some (negative, ds) =>
    let e := Text.digitsValue 0 ds
    if e ≤ maxExponent then
      scale 4 x (lead.places + if negative then -(e : Int) else (e : Int))
    else if lead.significand ≠ 0 ∧ !negative then none
    else some 0.0

def Numeral.value? (n : Numeral) : Option Number :=
  let floating := n.magnitude?.map fun x => Number.floating (if n.negative then -x else x)
  if n.fraction = [] ∧ n.exponent = none then
    let v := Text.digitsValue 0 n.whole
    if !n.negative ∧ v ≤ maxWord then some (.natural (UInt64.ofNat v))
    else if n.negative ∧ 0 < v ∧ v ≤ maxNegative then some (.negative (-(v : Int)))
    else floating
  else floating

end CheckRounds.Json
