import CheckRounds.Json.Number
import CheckRounds.Proofs.Text.Decimal
/-!
JSON text by its grammar, apart from any reader.

`Value` is what a text says: numbers as they are written, strings and keys with their
escapes resolved, members in the order in which they stand. `Writes` relates it to the
texts that say it; one value has many, for blanks, escapes and exponents can be written
in several ways. A half of a character that stands alone has no place in a string here.
-/

namespace CheckRounds.Json

open Text (Digits)

/-- Nothing but the characters that may stand between the parts of JSON text. -/
def Blanks (cs : List Char) : Prop := ∀ c ∈ cs, isBlank c = true

/-! ## Strings -/

/-- A hexadecimal digit, small or capital, and its value. -/
def HexDigit (c : Char) (n : Nat) : Prop :=
  n < 16 ∧ (c = Nat.digitChar n ∨ c = (Nat.digitChar n).toUpper)

/-- Four hexadecimal digits and the number they denote. -/
inductive HexUnit : List Char → Nat → Prop where
  | mk {a b c d : Char} {i j k l : Nat} (ha : HexDigit a i) (hb : HexDigit b j)
      (hc : HexDigit c k)
      (hd : HexDigit d l) : HexUnit [a, b, c, d] (((i * 16 + j) * 16 + k) * 16 + l)

/-- `Escape c d`: a backslash and `c` stand for `d`. -/
inductive Escape : Char → Char → Prop where
  | quote : Escape '"' '"'
  | backslash : Escape '\\' '\\'
  | slash : Escape '/' '/'
  | backspace : Escape 'b' '\x08'
  | formFeed : Escape 'f' '\x0c'
  | newline : Escape 'n' '\n'
  | carriageReturn : Escape 'r' '\r'
  | tab : Escape 't' '\t'

/-- `Spells cs s`: between quotes, `cs` is the string `s`. -/
inductive Spells : List Char → List Char → Prop where
  | nil : Spells [] []
  | plain {c : Char} {cs s : List Char} (hquote : c ≠ '"') (hbackslash : c ≠ '\\')
      (hcontrol : 0x20 ≤ c.toNat) (hcs : Spells cs s) : Spells (c :: cs) (c :: s)
  | escape {c d : Char} {cs s : List Char} (hc : Escape c d) (hcs : Spells cs s) :
      Spells ('\\' :: c :: cs) (d :: s)
  /-- A character of the basic plane by its number. -/
  | unit {us cs s : List Char} {n : Nat} (hus : HexUnit us n)
      (hn : n < 0xD800 ∨ 0xDFFF < n)
      (hcs : Spells cs s) : Spells ('\\' :: 'u' :: us ++ cs) (Char.ofNat n :: s)
  /-- A character beyond it by its two halves. -/
  | pair {us ls cs s : List Char} {hi lo : Nat} (hus : HexUnit us hi)
      (hhi : 0xD800 ≤ hi ∧ hi ≤ 0xDBFF)
      (hls : HexUnit ls lo) (hlo : 0xDC00 ≤ lo ∧ lo ≤ 0xDFFF) (hcs : Spells cs s) :
      Spells ('\\' :: 'u' :: us ++ '\\' :: 'u' :: ls ++ cs)
        (Char.ofNat (0x10000 + (hi - 0xD800) * 0x400 + (lo - 0xDC00)) :: s)

/-! ## Numbers -/

/-- The digits before the point: a zero in front stands alone. -/
structure Whole (ds : List Char) : Prop where
  digits : Digits ds
  lone_zero : ds.head? = some '0' → ds = ['0']

/-- `Fraction ds cs`: `cs` is the point and the digits `ds` behind it, or nothing. -/
inductive Fraction : List Char → List Char → Prop where
  | absent : Fraction [] []
  | present {ds : List Char} (hds : Digits ds) : Fraction ds ('.' :: ds)

/-- The sign of an exponent: a minus, a plus, or nothing. -/
inductive Sign : Bool → List Char → Prop where
  | absent : Sign false []
  | plus : Sign false ['+']
  | minus : Sign true ['-']

inductive Exponent : Option (Bool × List Char) → List Char → Prop where
  | absent : Exponent none []
  | present {e : Char} {negative : Bool} {sign ds : List Char} (he : e = 'e' ∨ e = 'E')
      (hsign : Sign negative sign) (hds : Digits ds) :
      Exponent (some (negative, ds)) (e :: sign ++ ds)

/-- The minus in front of a negative number. -/
def minus (negative : Bool) : List Char := if negative then ['-'] else []

inductive Numeral.Writes : Numeral → List Char → Prop where
  | mk {negative : Bool} {whole fraction fs es : List Char}
      {exponent : Option (Bool × List Char)}
      (hwhole : Whole whole) (hfraction : Fraction fraction fs)
      (hexponent : Exponent exponent es) :
      Numeral.Writes { negative, whole, fraction, exponent }
        (minus negative ++ whole ++ fs ++ es)

/-! ## Values -/

inductive Value where
  | null
  | boolean (b : Bool)
  | number (n : Numeral)
  | text (s : List Char)
  | array (items : List Value)
  | object (members : List (List Char × Value))

/-- The integer literal of a natural number: no sign, no fraction, no exponent. -/
def Value.ofNat (n : Nat) : Value := .number { whole := Nat.toDigits 10 n }

/-- The kinds of text that values are made of. -/
inductive Part where
  /-- A value without blanks around it. -/
  | bare (v : Value)
  /-- A value with any blanks around it. -/
  | value (v : Value)
  /-- One value or more, with commas between them. -/
  | items (vs : List Value)
  /-- A key, a colon and a value. -/
  | member (key : List Char) (v : Value)
  /-- One member or more, with commas between them. -/
  | members (ms : List (List Char × Value))

/-- `Writes part cs`: the text `cs` is well-formed and says `part`. -/
inductive Writes : Part → List Char → Prop where
  | null : Writes (.bare .null) "null".toList
  | yes : Writes (.bare (.boolean true)) "true".toList
  | no : Writes (.bare (.boolean false)) "false".toList
  | number {n : Numeral} {cs : List Char} (hn : n.Writes cs) : Writes
      (.bare (.number n)) cs
  | text {s cs : List Char} (hs : Spells cs s) : Writes (.bare (.text s))
      ('"' :: cs ++ ['"'])
  | emptyArray {bs : List Char} (hbs : Blanks bs) : Writes (.bare (.array []))
      ('[' :: bs ++ [']'])
  | array {vs : List Value} {cs : List Char} (hvs : Writes (.items vs) cs) :
      Writes (.bare (.array vs)) ('[' :: cs ++ [']'])
  | emptyObject {bs : List Char} (hbs : Blanks bs) :
      Writes (.bare (.object [])) ('\x7b' :: bs ++ ['\x7d'])
  | object {ms : List (List Char × Value)} {cs : List Char}
      (hms : Writes (.members ms) cs) :
      Writes (.bare (.object ms)) ('\x7b' :: cs ++ ['\x7d'])
  | value {v : Value} {as cs bs : List Char} (has : Blanks as) (hv : Writes (.bare v) cs)
      (hbs : Blanks bs) : Writes (.value v) (as ++ cs ++ bs)
  | lastItem {v : Value} {cs : List Char} (hv : Writes (.value v) cs) : Writes
      (.items [v]) cs
  | item {v : Value} {vs : List Value} {cs ds : List Char} (hv : Writes (.value v) cs)
      (hvs : Writes (.items vs) ds) : Writes (.items (v :: vs)) (cs ++ ',' :: ds)
  | member {key : List Char} {v : Value} {as ks bs cs : List Char} (has : Blanks as)
      (hkey : Spells ks key) (hbs : Blanks bs) (hv : Writes (.value v) cs) :
      Writes (.member key v) (as ++ '"' :: ks ++ '"' :: bs ++ ':' :: cs)
  | lastMember {key : List Char} {v : Value} {cs : List Char}
      (hm : Writes (.member key v) cs) :
      Writes (.members [(key, v)]) cs
  | members {key : List Char} {v : Value} {ms : List (List Char × Value)}
      {cs ds : List Char}
      (hm : Writes (.member key v) cs) (hms : Writes (.members ms) ds) :
      Writes (.members ((key, v) :: ms)) (cs ++ ',' :: ds)

/-! ## Texts of parts -/

theorem isPlain_iff {c : Char} :
    isPlain c = true ↔ c ≠ '"' ∧ c ≠ '\\' ∧ 0x20 ≤ c.toNat := by
  simp [isPlain, and_assoc]

/-- A string that needs no escapes is spelled by itself. -/
theorem Spells.of_plain {s : List Char} (hs : s.all isPlain = true) : Spells s s := by
  induction s with
  | nil => exact .nil
  | cons c s ih =>
    rw [List.all_cons, Bool.and_eq_true] at hs
    obtain ⟨hquote, hbackslash, hcontrol⟩ := isPlain_iff.1 hs.1
    exact .plain hquote hbackslash hcontrol (ih hs.2)

theorem Spells.append {cs ds s t : List Char} (h : Spells cs s) (h' : Spells ds t) :
    Spells (cs ++ ds) (s ++ t) := by
  induction h with
  | nil => exact h'
  | plain hquote hbackslash hcontrol _ ih => exact .plain hquote hbackslash hcontrol ih
  | escape hc _ ih => exact .escape hc ih
  | unit hus hn _ ih =>
    rw [List.append_assoc]
    exact .unit hus hn ih
  | pair hus hhi hls hlo _ ih =>
    rw [List.append_assoc]
    exact .pair hus hhi hls hlo ih

theorem whole_toDigits (n : Nat) : Whole (Nat.toDigits 10 n) :=
  ⟨Text.digits_toDigits n, Text.toDigits_eq_of_head?⟩

/-- The first digits of a number make up a number. -/
theorem Whole.beginning {ds t : List Char} (hds : Whole ds) (h : t <+: ds) (ht : t ≠ []) :
    Whole t where
  digits := ⟨ht, fun c hc => hds.digits.isDigit c (h.subset hc)⟩
  lone_zero := by
    intro hzero
    obtain ⟨c, t, rfl⟩ := List.exists_cons_of_ne_nil ht
    obtain ⟨u, rfl⟩ := h
    have hlone := hds.lone_zero hzero
    simp only [List.cons_append, List.cons.injEq, List.append_eq_nil_iff] at hlone
    rw [hlone.1, hlone.2.1]

theorem Writes.whole {ds : List Char} (hds : Whole ds) :
    Writes (.bare (.number { whole := ds })) ds := by
  have hn : Numeral.Writes _ (minus false ++ ds ++ [] ++ []) := .mk hds .absent .absent
  simpa [minus] using Writes.number hn

theorem Writes.ofNat (n : Nat) : Writes (.bare (.ofNat n)) (Nat.toDigits 10 n) :=
  .whole (whole_toDigits n)

theorem Writes.exists_of_mem_items {vs : List Value} {cs : List Char}
    (h : Writes (.items vs) cs) :
    ∀ v ∈ vs, ∃ ds, Writes (.value v) ds := by
  induction vs generalizing cs with
  | nil => simp
  | cons v vs ih =>
    cases h with
    | lastItem hv => simpa using ⟨_, hv⟩
    | item hv hvs => exact List.forall_mem_cons.2 ⟨⟨_, hv⟩, ih hvs⟩

theorem Writes.exists_of_mem_members {ms : List (List Char × Value)} {cs : List Char}
    (h : Writes (.members ms) cs) : ∀ m ∈ ms, ∃ ds, Writes (.value m.2) ds := by
  induction ms generalizing cs with
  | nil => simp
  | cons m ms ih =>
    cases h with
    | lastMember hm =>
      cases hm with
      | member has hkey hbs hv => simpa using ⟨_, hv⟩
    | members hm hms =>
      cases hm with
      | member has hkey hbs hv => exact List.forall_mem_cons.2 ⟨⟨_, hv⟩, ih hms⟩

theorem Writes.exists_of_mem_array {vs : List Value} {cs : List Char}
    (h : Writes (.value (.array vs)) cs) :
    ∀ v ∈ vs, ∃ ds, Writes (.value v) ds := by
  cases h with
  | value has hv hbs =>
    cases hv with
    | emptyArray hbs => simp
    | array hvs => exact hvs.exists_of_mem_items

theorem Writes.exists_of_mem_object {ms : List (List Char × Value)} {cs : List Char}
    (h : Writes (.value (.object ms)) cs) : ∀ m ∈ ms, ∃ ds, Writes (.value m.2) ds := by
  cases h with
  | value has hv hbs =>
    cases hv with
    | emptyObject hbs => simp
    | object hms => exact hms.exists_of_mem_members

theorem Blanks.nil : Blanks [] := by simp [Blanks]

/-- Members whose keys and values have texts make up an object that has one. -/
theorem exists_writes_object {ms : List (List Char × Value)}
    (h : ∀ m ∈ ms, (∃ ks, Spells ks m.1) ∧ ∃ cs, Writes (.value m.2) cs) :
    ∃ text, Writes (.value (.object ms)) text := by
  have hmembers : ms ≠ [] → ∃ cs, Writes (.members ms) cs := by
    intro hms
    induction ms with
    | nil => exact absurd rfl hms
    | cons m ms ih =>
      obtain ⟨⟨⟨ks, hks⟩, cs, hcs⟩, hrest⟩ := List.forall_mem_cons.1 h
      have hm := Writes.member .nil hks .nil hcs
      cases ms with
      | nil => exact ⟨_, .lastMember hm⟩
      | cons m' ms =>
        obtain ⟨ds, hds⟩ := ih hrest (by simp)
        exact ⟨_, .members hm hds⟩
  cases ms with
  | nil => exact ⟨_, .value .nil (.emptyObject .nil) .nil⟩
  | cons m ms =>
    obtain ⟨cs, hcs⟩ := hmembers (by simp)
    exact ⟨_, .value .nil (.object hcs) .nil⟩

end CheckRounds.Json
