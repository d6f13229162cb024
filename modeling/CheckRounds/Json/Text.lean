import CheckRounds.Text.Numeral
/-!
The lexical parts of JSON text: blanks, quoted strings and literals.

A reader takes the characters that are left and gives back what it read and what is left
after it. `Rest cs` is a remainder that is strictly shorter than `cs`, and `Tail cs` one
that is not longer; a loop of readers ends because each round of it leaves a `Rest`.
-/

namespace CheckRounds.Json

/-- What is left of `cs` after something was read from it. -/
abbrev Rest (cs : List Char) : Type := { r : List Char // r.length < cs.length }

/-- What is left of `cs` after something was read from it, which may be nothing. -/
abbrev Tail (cs : List Char) : Type := { r : List Char // r.length ≤ cs.length }

/-! ## Remainders of remainders -/

def Tail.whole (cs : List Char) : Tail cs := ⟨cs, Nat.le_refl _⟩

def Rest.one (c : Char) (cs : List Char) : Rest (c :: cs) := ⟨cs, Nat.lt_succ_self _⟩

def Rest.toTail {cs : List Char} (r : Rest cs) : Tail cs := ⟨r.1, Nat.le_of_lt r.2⟩

def Rest.after {cs : List Char} (c : Char) (r : Rest cs) : Rest (c :: cs) :=
  ⟨r.1, Nat.lt_succ_of_lt r.2⟩

def Tail.after {cs : List Char} (c : Char) (r : Tail cs) : Rest (c :: cs) :=
  ⟨r.1, Nat.lt_succ_of_le r.2⟩

def Rest.andThen {cs : List Char} (r : Rest cs) (s : Rest r.1) : Rest cs :=
  ⟨s.1, Nat.lt_trans s.2 r.2⟩

def Rest.andPerhaps {cs : List Char} (r : Rest cs) (s : Tail r.1) : Rest cs :=
  ⟨s.1, Nat.lt_of_le_of_lt s.2 r.2⟩

def Tail.andPerhaps {cs : List Char} (r : Tail cs) (s : Tail r.1) : Tail cs :=
  ⟨s.1, Nat.le_trans s.2 r.2⟩

def Rest.again {cs : List Char} {c : Char} (r : Rest cs) (s : Rest (c :: r.1)) :
    Rest cs :=
  ⟨s.1, Nat.lt_of_le_of_lt (Nat.le_of_lt_succ s.2) r.2⟩

def Rest.behind {cs : List Char} {c : Char} (r : Rest (c :: cs)) : Tail cs :=
  ⟨r.1, Nat.le_of_lt_succ r.2⟩

/-! ## Characters -/

/-- The four characters that may stand between the parts of JSON text. -/
def isBlank (c : Char) : Bool := c == ' ' || c == '\n' || c == '\t' || c == '\r'

def next? : (cs : List Char) → Option (Char × Rest cs)
  | [] => none
  | c :: cs =>
    if isBlank c then
      match next? cs with
      | some (d, r) => some (d, r.after c)
      | none => none
    else some (c, .one c cs)

def hexDigit? (c : Char) : Option Nat :=
  if '0' ≤ c ∧ c ≤ '9' then some (c.toNat - '0'.toNat)
  else if 'a' ≤ c ∧ c ≤ 'f' then some (c.toNat - 'a'.toNat + 10)
  else if 'A' ≤ c ∧ c ≤ 'F' then some (c.toNat - 'A'.toNat + 10)
  else none

def hexUnit? (a b c d : Char) : Option Nat := do
  let a ← hexDigit? a
  let b ← hexDigit? b
  let c ← hexDigit? c
  let d ← hexDigit? d
  return ((a * 16 + b) * 16 + c) * 16 + d

def shortEscape? : Char → Option Char
  | '"' => some '"'
  | '\\' => some '\\'
  | '/' => some '/'
  | 'b' => some '\x08'
  | 'f' => some '\x0c'
  | 'n' => some '\n'
  | 'r' => some '\r'
  | 't' => some '\t'
  | _ => none

def isLeading (n : Nat) : Bool := 0xD800 ≤ n && n ≤ 0xDBFF

def isTrailing (n : Nat) : Bool := 0xDC00 ≤ n && n ≤ 0xDFFF

def joinHalves (hi lo : Nat) : Char :=
  Char.ofNat (0x10000 + (hi - 0xD800) * 0x400 + (lo - 0xDC00))

/-! ## Strings -/

/-- A leading half is followed at once by the escape of a trailing half. -/
def trailingHalf? (hi : Nat) : (cs : List Char) → Option (Char × Rest cs)
  | x :: y :: a :: b :: c :: d :: cs =>
    if x = '\\' ∧ y = 'u' then
      match hexUnit? a b c d with
      | some lo =>
        if isTrailing lo then
          some (joinHalves hi lo,
            (((((Rest.one d cs).after c).after b).after a).after y).after x)
        else none
      | none => none
    else none
  | _ => none

/-- The character written by four hexadecimal digits, and by a second escape where the
first one is a leading half. A half that stands alone is refused. -/
def unicodeEscape? : (cs : List Char) → Option (Char × Rest cs)
  | a :: b :: c :: d :: cs =>
    match hexUnit? a b c d with
    | some n =>
      if isLeading n then
        match trailingHalf? n cs with
        | some (x, r) => some (x, (((r.after d).after c).after b).after a)
        | none => none
      else if isTrailing n then none
      else some (Char.ofNat n, (((Rest.one d cs).after c).after b).after a)
    | none => none
  | _ => none

def escape? : (cs : List Char) → Option (Char × Rest cs)
  | [] => none
  | c :: cs =>
    if c = 'u' then
      match unicodeEscape? cs with
      | some (x, r) => some (x, r.after c)
      | none => none
    else
      match shortEscape? c with
      | some x => some (x, .one c cs)
      | none => none

/-- A plain character of a string: controls have to be escaped, and the closing quote is
no character of the string. -/
def isPlain (c : Char) : Bool := c != '"' && c != '\\' && 0x20 ≤ c.toNat

def stringUnit? : (cs : List Char) → Option (Char × Rest cs)
  | [] => none
  | c :: cs =>
    if c = '\\' then
      match escape? cs with
      | some (x, r) => some (x, r.after c)
      | none => none
    else if isPlain c then some (c, .one c cs)
    else none

def string? : (cs : List Char) → Option (List Char × Rest cs)
  | [] => none
  | c :: cs =>
    if c = '"' then some ([], .one c cs)
    else
      match stringUnit? (c :: cs) with
      | some (x, r) =>
        match string? r.1 with
        | some (s, rest) => some (x :: s, r.andThen rest)
        | none => none
      | none => none
termination_by cs => cs.length
decreasing_by exact r.2

/-- What follows an escape whose value is of no interest: the halves of a character
beyond the basic plane need not match. -/
def skipEscape? : (cs : List Char) → Option (Rest cs)
  | [] => none
  | x :: cs =>
    if x = 'u' then
      match cs with
      | a :: b :: c :: d :: cs =>
        if (hexUnit? a b c d).isSome then
          some (((((Rest.one d cs).after c).after b).after a).after x)
        else none
      | _ => none
    else if (shortEscape? x).isSome then some (.one x cs)
    else none

def skipUnit? : (cs : List Char) → Option (Rest cs)
  | [] => none
  | c :: cs =>
    if c = '\\' then
      match skipEscape? cs with
      | some r => some (r.after c)
      | none => none
    else if isPlain c then some (.one c cs)
    else none

def skipString? : (cs : List Char) → Option (Rest cs)
  | [] => none
  | c :: cs =>
    if c = '"' then some (.one c cs)
    else
      match skipUnit? (c :: cs) with
      | some r =>
        match skipString? r.1 with
        | some rest => some (r.andThen rest)
        | none => none
      | none => none
termination_by cs => cs.length
decreasing_by exact r.2

/-! ## Literals -/

def afterWord? : (word cs : List Char) → Option (Tail cs)
  | [], cs => some (.whole cs)
  | _ :: _, [] => none
  | w :: word, c :: cs =>
    if w = c then
      match afterWord? word cs with
      | some r => some (r.after c).toTail
      | none => none
    else none

theorem next?_cons_of_isBlank {c : Char} (h : isBlank c = true) (cs : List Char) :
    next? (c :: cs) = (next? cs).map fun (d, r) => (d, r.after c) := by
  rw [next?, if_pos h]
  cases next? cs <;> rfl

theorem next?_cons_of_not_isBlank {c : Char} (h : isBlank c = false) (cs : List Char) :
    next? (c :: cs) = some (c, .one c cs) := by
  rw [next?, if_neg (by simp [h])]

end CheckRounds.Json
