import CheckRounds.Json.Skip
import CheckRounds.Proofs.Json.Grammar
/-!
Readers get past well-formed text.

Each lemma is about one reader: put in front of text of its kind, it gives what the text
says and leaves what follows. A number ends only where something else begins, so what
follows a number `Delimits` it; the ends of strings, arrays and objects are in their own
text.
-/

namespace CheckRounds.Json

open Text (Digits)

variable {α : Type} {P : List Char → List Char → Prop}

/-- `Reads read cs x rest`: off the front of `cs`, the reader takes `x`, and it leaves
`rest`. -/
def Reads (read : (cs : List Char) → Option (α × { r : List Char // P cs r }))
    (cs : List Char) (x : α) (rest : List Char) : Prop :=
  ∃ h, read cs = some (x, ⟨rest, h⟩)

/-- `Skips skip cs rest`: the reader gets past something at the front of `cs` and leaves
`rest`. -/
def Skips (skip : (cs : List Char) → Option { r : List Char // P cs r })
    (cs rest : List Char) : Prop :=
  ∃ h, skip cs = some ⟨rest, h⟩

/-! ## Blanks -/

theorem next?_append {bs : List Char} (hbs : Blanks bs) {c : Char}
    (hc : isBlank c = false) (rest : List Char) :
    Reads next? (bs ++ c :: rest) c rest := by
  induction bs with
  | nil => exact ⟨_, next?_cons_of_not_isBlank hc rest⟩
  | cons b bs ih =>
    obtain ⟨h, hnext⟩ := ih fun d hd => hbs d (by simp [hd])
    rw [List.cons_append]
    refine ⟨Nat.lt_succ_of_lt h, ?_⟩
    rw [next?_cons_of_isBlank (hbs b (by simp)), hnext]
    rfl

theorem next?_eq_none_iff {cs : List Char} : next? cs = none ↔ Blanks cs := by
  induction cs with
  | nil => simp [next?, Blanks]
  | cons c cs ih =>
    cases hc : isBlank c with
    | true => simp [next?_cons_of_isBlank hc, ih, Blanks, hc]
    | false => simp [next?_cons_of_not_isBlank hc, Blanks, hc]

/-! ## Strings -/

theorem hexDigit?_of_hexDigit {c : Char} {n : Nat} (h : HexDigit c n) :
    hexDigit? c = some n := by
  have hall : ∀ n < 16, hexDigit? (Nat.digitChar n) = some n ∧
      hexDigit? (Nat.digitChar n).toUpper = some n := by decide
  obtain ⟨hn, rfl | rfl⟩ := h
  · exact (hall n hn).1
  · exact (hall n hn).2

theorem hexUnit?_of_hexUnit {a b c d : Char} {n : Nat} (h : HexUnit [a, b, c, d] n) :
    hexUnit? a b c d = some n := by
  cases h with
  | mk ha hb hc hd =>
    simp [hexUnit?, hexDigit?_of_hexDigit ha, hexDigit?_of_hexDigit hb,
      hexDigit?_of_hexDigit hc, hexDigit?_of_hexDigit hd]

theorem HexUnit.exists_chars {us : List Char} {n : Nat} (h : HexUnit us n) :
    ∃ a b c d, us = [a, b, c, d] := by
  cases h
  exact ⟨_, _, _, _, rfl⟩

theorem shortEscape?_of_escape {c d : Char} (h : Escape c d) :
    shortEscape? c = some d := by
  cases h <;> rfl

theorem Escape.ne_u {c d : Char} (h : Escape c d) : c ≠ 'u' := by
  cases h <;> decide

theorem stringUnit?_plain {c : Char} (hbackslash : c ≠ '\\') (hc : isPlain c = true)
    (rest : List Char) :
    Reads stringUnit? (c :: rest) c rest :=
  ⟨by simp, by simp [stringUnit?, hbackslash, hc]; rfl⟩

theorem stringUnit?_escape {c d : Char} (hc : Escape c d) (rest : List Char) :
    Reads stringUnit? ('\\' :: c :: rest) d rest :=
  ⟨by simp only [List.length_cons]; omega, by
    simp [stringUnit?, escape?, hc.ne_u, shortEscape?_of_escape hc]; rfl⟩

theorem stringUnit?_unit {us : List Char} {n : Nat} (hus : HexUnit us n)
    (hn : n < 0xD800 ∨ 0xDFFF < n) (rest : List Char) :
    Reads stringUnit? ('\\' :: 'u' :: us ++ rest) (Char.ofNat n) rest := by
  obtain ⟨a, b, c, d, rfl⟩ := hus.exists_chars
  have hleading : isLeading n = false := by
    simp [isLeading]
    omega
  have htrailing : isTrailing n = false := by
    simp [isTrailing]
    omega
  refine ⟨by simp only [List.length_append, List.length_cons]; omega, ?_⟩
  simp [stringUnit?, escape?, unicodeEscape?, hexUnit?_of_hexUnit hus, hleading,
    htrailing]
  rfl

theorem trailingHalf?_append {ls : List Char} {lo : Nat} (hls : HexUnit ls lo)
    (hlo : 0xDC00 ≤ lo ∧ lo ≤ 0xDFFF) (hi : Nat) (rest : List Char) :
    Reads (trailingHalf? hi) ('\\' :: 'u' :: ls ++ rest) (joinHalves hi lo) rest := by
  obtain ⟨a, b, c, d, rfl⟩ := hls.exists_chars
  have htrailing : isTrailing lo = true := by simp [isTrailing, hlo]
  refine ⟨by simp only [List.length_append, List.length_cons]; omega, ?_⟩
  simp [trailingHalf?, hexUnit?_of_hexUnit hls, htrailing]
  rfl

theorem stringUnit?_pair {us ls : List Char} {hi lo : Nat} (hus : HexUnit us hi)
    (hhi : 0xD800 ≤ hi ∧ hi ≤ 0xDBFF) (hls : HexUnit ls lo)
    (hlo : 0xDC00 ≤ lo ∧ lo ≤ 0xDFFF) (rest : List Char) :
    Reads stringUnit? ('\\' :: 'u' :: us ++ ('\\' :: 'u' :: ls ++ rest))
      (joinHalves hi lo) rest := by
  obtain ⟨a, b, c, d, rfl⟩ := hus.exists_chars
  obtain ⟨h, htrailing⟩ := trailingHalf?_append hls hlo hi rest
  have hleading : isLeading hi = true := by simp [isLeading, hhi]
  refine ⟨by simp only [List.length_append, List.length_cons]; omega, ?_⟩
  simp only [List.cons_append, List.nil_append, stringUnit?, escape?, unicodeEscape?,
    hexUnit?_of_hexUnit hus, hleading, if_true] at htrailing ⊢
  rw [htrailing]
  rfl

theorem skipUnit?_plain {c : Char} (hbackslash : c ≠ '\\') (hc : isPlain c = true)
    (rest : List Char) :
    Skips skipUnit? (c :: rest) rest :=
  ⟨by simp, by simp [skipUnit?, hbackslash, hc]; rfl⟩

theorem skipUnit?_escape {c d : Char} (hc : Escape c d) (rest : List Char) :
    Skips skipUnit? ('\\' :: c :: rest) rest :=
  ⟨by simp only [List.length_cons]; omega, by
    simp [skipUnit?, skipEscape?, hc.ne_u, shortEscape?_of_escape hc]; rfl⟩

theorem skipUnit?_unit {us : List Char} {n : Nat} (hus : HexUnit us n)
    (rest : List Char) :
    Skips skipUnit? ('\\' :: 'u' :: us ++ rest) rest := by
  obtain ⟨a, b, c, d, rfl⟩ := hus.exists_chars
  refine ⟨by simp only [List.length_append, List.length_cons]; omega, ?_⟩
  simp [skipUnit?, skipEscape?, hexUnit?_of_hexUnit hus]
  rfl

/-- A string goes on behind each of its characters. -/
theorem string?_of_stringUnit? {c x : Char} {cs ds s rest : List Char} (hc : c ≠ '"')
    (hunit : Reads stringUnit? (c :: cs) x ds) (hstring : Reads string? ds s rest) :
    Reads string? (c :: cs) (x :: s) rest := by
  obtain ⟨h, hunit⟩ := hunit
  obtain ⟨h', hstring⟩ := hstring
  refine ⟨Nat.lt_trans h' h, ?_⟩
  rw [string?, if_neg hc, hunit]
  simp only [hstring]
  rfl

theorem skipString?_of_skipUnit? {c : Char} {cs ds rest : List Char} (hc : c ≠ '"')
    (hunit : Skips skipUnit? (c :: cs) ds) (hstring : Skips skipString? ds rest) :
    Skips skipString? (c :: cs) rest := by
  obtain ⟨h, hunit⟩ := hunit
  obtain ⟨h', hstring⟩ := hstring
  refine ⟨Nat.lt_trans h' h, ?_⟩
  rw [skipString?, if_neg hc, hunit]
  simp only [hstring]
  rfl

theorem string?_append {cs s : List Char} (hs : Spells cs s) (rest : List Char) :
    Reads string? (cs ++ '"' :: rest) s rest := by
  induction hs with
  | nil => exact ⟨by simp, by simp [string?]; rfl⟩
  | plain hquote hbackslash hcontrol hcs ih =>
    exact string?_of_stringUnit? hquote
      (stringUnit?_plain hbackslash (isPlain_iff.2 ⟨hquote, hbackslash, hcontrol⟩) _) ih
  | escape hc hcs ih =>
    exact string?_of_stringUnit? (by decide) (stringUnit?_escape hc _) ih
  | unit hus hn hcs ih =>
    rw [List.append_assoc]
    exact string?_of_stringUnit? (by decide) (stringUnit?_unit hus hn _) ih
  | pair hus hhi hls hlo hcs ih =>
    rw [List.append_assoc, List.append_assoc]
    exact string?_of_stringUnit? (by decide) (stringUnit?_pair hus hhi hls hlo _) ih

theorem skipString?_append {cs s : List Char} (hs : Spells cs s) (rest : List Char) :
    Skips skipString? (cs ++ '"' :: rest) rest := by
  induction hs with
  | nil => exact ⟨by simp, by simp [skipString?]; rfl⟩
  | plain hquote hbackslash hcontrol hcs ih =>
    exact skipString?_of_skipUnit? hquote
      (skipUnit?_plain hbackslash (isPlain_iff.2 ⟨hquote, hbackslash, hcontrol⟩) _) ih
  | escape hc hcs ih =>
    exact skipString?_of_skipUnit? (by decide) (skipUnit?_escape hc _) ih
  | unit hus hn hcs ih =>
    rw [List.append_assoc]
    exact skipString?_of_skipUnit? (by decide) (skipUnit?_unit hus _) ih
  | pair hus hhi hls hlo hcs ih =>
    have hlow := skipString?_of_skipUnit? (by decide) (skipUnit?_unit hls _) ih
    rw [List.append_assoc, List.append_assoc]
    exact skipString?_of_skipUnit? (by decide) (skipUnit?_unit hus _) hlow

/-! ## Numbers -/

/-- The text is over, or it begins with a character that no number can go on with. -/
structure Delimits (rest : List Char) : Prop where
  noDigit : ∀ c, rest.head? = some c → c.isDigit = false
  noPoint : rest.head? ≠ some '.'
  noExponent : ∀ c, rest.head? = some c → ¬ (c = 'e' ∨ c = 'E')

theorem Delimits.nil : Delimits [] := ⟨by simp, by simp, by simp⟩

theorem Delimits.of_not_isDigit {c : Char} (hc : c.isDigit = false) (hpoint : c ≠ '.')
    (hexponent : ¬ (c = 'e' ∨ c = 'E')) (rest : List Char) : Delimits (c :: rest) :=
  ⟨by simpa using hc, by simpa using hpoint, by simpa using hexponent⟩

theorem Delimits.blanks {bs rest : List Char} (hbs : Blanks bs) (h : Delimits rest) :
    Delimits (bs ++ rest) := by
  cases bs with
  | nil => exact h
  | cons b bs =>
    have hb : ((b = ' ' ∨ b = '\n') ∨ b = '\t') ∨ b = '\r' := by
      simpa [isBlank] using hbs b (by simp)
    rcases hb with ((rfl | rfl) | rfl) | rfl <;>
      exact .of_not_isDigit (by decide) (by decide) (by decide) _

theorem digits_append {ds rest : List Char} (hds : ∀ c ∈ ds, c.isDigit = true)
    (hrest : ∀ c, rest.head? = some c → c.isDigit = false) :
    ∃ h, digits (ds ++ rest) = (ds, ⟨rest, h⟩) := by
  induction ds with
  | nil =>
    cases rest with
    | nil => exact ⟨Nat.le_refl _, rfl⟩
    | cons c rest => exact ⟨Nat.le_refl _, by simp [digits, hrest c rfl, Tail.whole]⟩
  | cons d ds ih =>
    obtain ⟨h, hdigits⟩ := ih fun c hc => hds c (by simp [hc])
    rw [List.cons_append]
    refine ⟨Nat.le_succ_of_le h, ?_⟩
    rw [digits, if_pos (hds d (by simp)), hdigits]
    rfl

theorem someDigits?_append {ds rest : List Char} (hds : Digits ds)
    (hrest : ∀ c, rest.head? = some c → c.isDigit = false) :
    Reads someDigits? (ds ++ rest) ds rest := by
  cases ds with
  | nil => exact absurd rfl hds.ne_nil
  | cons d ds =>
    obtain ⟨h, hdigits⟩ :=
      digits_append (fun c hc => hds.isDigit c (List.mem_cons_of_mem d hc)) hrest
    rw [List.cons_append]
    refine ⟨Nat.lt_succ_of_le h, ?_⟩
    rw [someDigits?, if_pos (hds.isDigit d (by simp)), hdigits]
    rfl

theorem wholePart?_append {ds rest : List Char} (hds : Whole ds)
    (hrest : ∀ c, rest.head? = some c → c.isDigit = false) :
    Reads wholePart? (ds ++ rest) ds rest := by
  obtain ⟨h, hsome⟩ := someDigits?_append hds.digits hrest
  have hzero : ¬ (ds.head? = some '0' ∧ ds.length ≠ 1) := fun hhead =>
    hhead.2 (by rw [hds.lone_zero hhead.1]; rfl)
  refine ⟨h, ?_⟩
  rw [wholePart?, hsome]
  simp only [if_neg hzero]

theorem fractionPart?_append {ds fs rest : List Char} (hfs : Fraction ds fs)
    (hdigit : ∀ c, rest.head? = some c → c.isDigit = false)
    (hpoint : rest.head? ≠ some '.') :
    Reads fractionPart? (fs ++ rest) ds rest := by
  cases hfs with
  | absent =>
    cases rest with
    | nil => exact ⟨Nat.le_refl _, rfl⟩
    | cons c rest =>
      have hc : c ≠ '.' := by simpa using hpoint
      exact ⟨Nat.le_refl _, by simp [fractionPart?, hc, Tail.whole]⟩
  | present hds =>
    obtain ⟨h, hsome⟩ := someDigits?_append hds hdigit
    rw [List.cons_append]
    refine ⟨Nat.le_of_lt (Nat.lt_succ_of_lt h), ?_⟩
    rw [fractionPart?, if_pos rfl, hsome]
    rfl

theorem exponentSign_append {negative : Bool} {sign ds : List Char}
    (hsign : Sign negative sign) (hds : Digits ds) (rest : List Char) :
    ∃ h, exponentSign (sign ++ (ds ++ rest)) = (negative, ⟨ds ++ rest, h⟩) := by
  cases hsign with
  | absent =>
    cases ds with
    | nil => exact absurd rfl hds.ne_nil
    | cons d ds =>
      have hd : d.isDigit = true := hds.isDigit d (by simp)
      have hminus : d ≠ '-' := by rintro rfl; exact absurd hd (by decide)
      have hplus : d ≠ '+' := by rintro rfl; exact absurd hd (by decide)
      exact ⟨Nat.le_refl _, by simp [exponentSign, hminus, hplus, Tail.whole]⟩
  | plus => exact ⟨Nat.le_succ _, rfl⟩
  | minus => exact ⟨Nat.le_succ _, rfl⟩

theorem exponentPart?_append {exponent : Option (Bool × List Char)} {es rest : List Char}
    (hes : Exponent exponent es) (hrest : Delimits rest) :
    Reads exponentPart? (es ++ rest) exponent rest := by
  cases hes with
  | absent =>
    cases rest with
    | nil => exact ⟨Nat.le_refl _, rfl⟩
    | cons c rest =>
      have hc : ¬ (c = 'e' ∨ c = 'E') := hrest.noExponent c rfl
      exact ⟨Nat.le_refl _, by simp [exponentPart?, hc, Tail.whole]⟩
  | present he hsign hds =>
    obtain ⟨h, hexponent⟩ := exponentSign_append hsign hds rest
    obtain ⟨h', hsome⟩ := someDigits?_append hds hrest.noDigit
    rw [List.cons_append, List.cons_append, List.append_assoc]
    refine ⟨Nat.le_succ_of_le (Nat.le_trans (Nat.le_of_lt h') h), ?_⟩
    rw [exponentPart?, if_pos he, hexponent]
    simp only [hsome]
    rfl

/-- What follows the digits before the point is no digit. -/
theorem noDigit_of_fraction {ds fs es rest : List Char}
    {exponent : Option (Bool × List Char)} (hfs : Fraction ds fs)
    (hes : Exponent exponent es) (hrest : Delimits rest) :
    ∀ c, (fs ++ (es ++ rest)).head? = some c → c.isDigit = false := by
  cases hfs with
  | present hds => simp
  | absent =>
    cases hes with
    | absent => exact hrest.noDigit
    | present he hsign hds => rcases he with rfl | rfl <;> simp

theorem noPoint_of_exponent {es rest : List Char} {exponent : Option (Bool × List Char)}
    (hes : Exponent exponent es) (hrest : Delimits rest) :
    (es ++ rest).head? ≠ some '.' := by
  cases hes with
  | absent => exact hrest.noPoint
  | present he hsign hds => rcases he with rfl | rfl <;> simp

theorem unsignedNumeral?_append {whole ds fs es rest : List Char}
    {exponent : Option (Bool × List Char)} (hwhole : Whole whole) (hfs : Fraction ds fs)
    (hes : Exponent exponent es) (hrest : Delimits rest) (negative : Bool) :
    Reads (unsignedNumeral? negative) (whole ++ (fs ++ (es ++ rest)))
      { negative, whole, fraction := ds, exponent } rest := by
  have hdigit : ∀ c, (es ++ rest).head? = some c → c.isDigit = false :=
    noDigit_of_fraction .absent hes hrest
  obtain ⟨h, hw⟩ := wholePart?_append hwhole (noDigit_of_fraction hfs hes hrest)
  obtain ⟨h', hf⟩ := fractionPart?_append hfs hdigit (noPoint_of_exponent hes hrest)
  obtain ⟨h'', he⟩ := exponentPart?_append hes hrest
  refine ⟨Nat.lt_of_le_of_lt (Nat.le_trans h'' h') h, ?_⟩
  simp only [unsignedNumeral?, hw, hf, he]
  rfl

theorem numeral?_append {n : Numeral} {cs rest : List Char} (hn : n.Writes cs)
    (hrest : Delimits rest) :
    Reads numeral? (cs ++ rest) n rest := by
  cases hn with
  | @mk negative whole fraction fs es exponent hwhole hfs hes =>
    obtain ⟨h, hnumeral⟩ := unsignedNumeral?_append hwhole hfs hes hrest negative
    simp only [List.append_assoc]
    cases negative with
    | true =>
      change Reads numeral? ('-' :: (whole ++ (fs ++ (es ++ rest)))) _ rest
      refine ⟨Nat.lt_succ_of_lt h, ?_⟩
      rw [numeral?, if_pos rfl, hnumeral]
      rfl
    | false =>
      obtain ⟨d, ds, rfl⟩ := List.exists_cons_of_ne_nil hwhole.digits.ne_nil
      have hd : d ≠ '-' := by
        rintro rfl
        exact absurd (hwhole.digits.isDigit _ List.mem_cons_self) (by decide)
      refine ⟨h, ?_⟩
      simpa [minus, numeral?, hd] using hnumeral

/-! ## First characters -/

/-- A character with which a value of this kind begins. -/
def Value.Opens (c : Char) : Value → Prop
  | .null => c = 'n'
  | .boolean b => c = if b then 't' else 'f'
  | .number _ => startsNumeral c = true
  | .text _ => c = '"'
  | .array _ => c = '['
  | .object _ => c = '\x7b'

theorem ne_of_startsNumeral {c d : Char} (hc : startsNumeral c = true)
    (hd : startsNumeral d = false) :
    c ≠ d := by
  rintro rfl
  rw [hc] at hd
  contradiction

theorem Value.Opens.ne {c d : Char} {v : Value} (h : v.Opens c)
    (hnumber : startsNumeral d = false) (hother : d ∉ ['n', 't', 'f', '"', '[', '\x7b']) :
    c ≠ d := by
  cases v with
  | number n => exact ne_of_startsNumeral h hnumber
  | boolean b =>
    rintro rfl
    cases b <;> exact hother (by rw [h]; decide)
  | _ =>
    rintro rfl
    exact hother (by rw [h]; decide)

theorem Value.Opens.not_isBlank {c : Char} {v : Value} (h : v.Opens c) :
    isBlank c = false := by
  have hspace : c ≠ ' ' := h.ne (by decide) (by decide)
  have hnewline : c ≠ '\n' := h.ne (by decide) (by decide)
  have htab : c ≠ '\t' := h.ne (by decide) (by decide)
  have hreturn : c ≠ '\r' := h.ne (by decide) (by decide)
  simp [isBlank, hspace, hnewline, htab, hreturn]

theorem Numeral.Writes.exists_cons {n : Numeral} {cs : List Char} (hn : n.Writes cs) :
    ∃ c ds, cs = c :: ds ∧ startsNumeral c = true := by
  cases hn with
  | @mk negative whole fraction fs es exponent hwhole hfs hes =>
    obtain ⟨d, ds, rfl⟩ := List.exists_cons_of_ne_nil hwhole.digits.ne_nil
    have hd : d.isDigit = true := hwhole.digits.isDigit d (by simp)
    cases negative with
    | true => exact ⟨'-', _, rfl, by decide⟩
    | false => exact ⟨d, _, rfl, by simp [startsNumeral, hd]⟩

theorem Writes.exists_opening {v : Value} {cs : List Char} (h : Writes (.bare v) cs) :
    ∃ c ds, cs = c :: ds ∧ v.Opens c := by
  cases h with
  | number hn => exact hn.exists_cons
  | _ => exact ⟨_, _, rfl, rfl⟩

theorem next?_value {v : Value} {cs : List Char} (h : Writes (.value v) cs)
    (rest : List Char) :
    ∃ c ds, v.Opens c ∧ Reads next? (cs ++ rest) c ds := by
  cases h with
  | @value _ as _ bs has hv hbs =>
    obtain ⟨c, ds, rfl, hc⟩ := hv.exists_opening
    refine ⟨c, ds ++ (bs ++ rest), hc, ?_⟩
    rw [List.append_assoc, List.append_assoc]
    exact next?_append has hc.not_isBlank _

end CheckRounds.Json
