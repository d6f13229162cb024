/-!
The shortest decimal that reads back as a given floating number.

A finite number is `m · 2^q`. The reals that round to it form an interval around it,
which holds its ends exactly when `m` is even. A decimal of `n` digits is a point of a
grid; if any point of the grid lies in the interval, one of the value's two neighbours
on the grid does. The first grid with such a neighbour wins; of two neighbours the
nearer one is taken, and of two equally near ones the even one. All of it is exact
arithmetic on natural numbers.
-/

namespace CheckRounds.Decimal

/-- A positive number `mantissa · 2^exponent` together with the shape of the interval
around it. -/
structure Binary where
  mantissa : Nat
  exponent : Int
  closeBelow : Bool

def fractionSize : Nat := 4503599627370496

def Binary.ofBits (bits : UInt64) : Binary :=
  let fraction : Nat := bits.toNat % fractionSize
  let power : Nat := bits.toNat / fractionSize % 2048
  if power = 0 then ⟨fraction, -1074, false⟩
  else ⟨fractionSize + fraction, (power : Int) - 1075, fraction = 0 ∧ 1 < power⟩

structure Scaled where
  digits : Nat
  exponent : Int
  deriving DecidableEq

/-- The fraction `num / den`, which is `quarters / 4 · 2^q` in units of `10^p`. -/
def inUnits (quarters : Nat) (q p : Int) : Nat × Nat :=
  (quarters * Nat.pow 2 q.toNat * Nat.pow 10 (-p).toNat,
    4 * Nat.pow 2 (-q).toNat * Nat.pow 10 p.toNat)

/-- The exponent of the first digit of `num / den`: counts down from `fuel` places above
the point to as many below it. -/
def leadingExponent (num den : Nat) : Nat → Int → Int
  | 0, k => k
  | fuel + 1, k =>
    if den * Nat.pow 10 k.toNat ≤ num * Nat.pow 10 (-k).toNat then k
    else leadingExponent num den fuel (k - 1)

def gridPoint? (b : Binary) (p : Int) : Option Scaled :=
  let (value, den) := inUnits (4 * b.mantissa) b.exponent p
  let (low, _) := inUnits (4 * b.mantissa - (if b.closeBelow then 1 else 2)) b.exponent p
  let (high, _) := inUnits (4 * b.mantissa + 2) b.exponent p
  let below := value / den
  let above := below + 1
  let inside (d : Nat) : Bool :=
    if b.mantissa % 2 = 0 then low ≤ d * den ∧ d * den ≤ high
    else low < d * den ∧ d * den < high
  let toBelow := value - below * den
  let toAbove := above * den - value
  if inside below && 0 < below then
    if inside above && (toAbove < toBelow || (toAbove == toBelow && above % 2 == 0)) then
      some ⟨above, p⟩
    else some ⟨below, p⟩
  else if inside above then some ⟨above, p⟩
  else none

/-- The point on the first grid that has one: `fuel` grids, each ten times finer. -/
def firstGridPoint (b : Binary) : Nat → Int → Scaled
  | 0, p => ⟨b.mantissa, p⟩
  | fuel + 1, p =>
    match gridPoint? b p with
    | some d => d
    | none => firstGridPoint b fuel (p - 1)

def Scaled.strip : Nat → Scaled → Scaled
  | 0, d => d
  | fuel + 1, d =>
    if d.digits % 10 = 0 then strip fuel ⟨d.digits / 10, d.exponent + 1⟩ else d

/-- The shortest decimal for a positive number: at most seventeen digits are needed. -/
def shortest (b : Binary) : Scaled :=
  let (num, den) := inUnits (4 * b.mantissa) b.exponent 0
  let lead := leadingExponent num den 640 310
  (firstGridPoint b 18 lead).strip 18

end CheckRounds.Decimal
