import CheckRounds.Decimal.Shortest
/-!
How a floating number is written in a message: its shortest digits, positional while the
first digit stands no more than five places behind the point and no more than sixteen
before it, with an exponent otherwise. A positional number always has a point.
-/

namespace CheckRounds.Decimal

structure Layout where
  /-- The least exponent of the first digit that is written positionally. -/
  least : Int
  greatest : Int

def messageLayout : Layout := ⟨-5, 15⟩

def positional (ds : List Char) (k : Int) : List Char :=
  if k < 0 then ['0', '.'] ++ List.replicate (k.natAbs - 1) '0' ++ ds
  else
    let whole := k.toNat + 1
    if ds.length ≤ whole then ds ++ List.replicate (whole - ds.length) '0' ++ ['.', '0']
    else ds.take whole ++ ['.'] ++ ds.drop whole

/-- The digits `ds`, the first of which has exponent `k`, with an exponent that shows
its sign and has no leading zeros. -/
def scientific (ds : List Char) (k : Int) : List Char :=
  let mantissa := match ds with
    | [] => []
    | [d] => [d]
    | d :: rest => d :: '.' :: rest
  mantissa ++ ['e', if k < 0 then '-' else '+'] ++ Nat.toDigits 10 k.natAbs

def Scaled.render (l : Layout) (d : Scaled) : List Char :=
  let ds := Nat.toDigits 10 d.digits
  let k := d.exponent + (ds.length : Int) - 1
  if l.least ≤ k ∧ k ≤ l.greatest then positional ds k else scientific ds k

def signBit : Nat := 9223372036854775808

def floatText (x : Float) : List Char :=
  let bits := x.toBits
  let sign := if signBit ≤ bits.toNat then ['-'] else []
  if bits.toNat % signBit = 0 then sign ++ ['0', '.', '0']
  else sign ++ (shortest (Binary.ofBits bits)).render messageLayout

end CheckRounds.Decimal
