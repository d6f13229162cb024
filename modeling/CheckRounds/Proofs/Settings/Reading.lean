import CheckRounds.Proofs.Json.Skipping
import CheckRounds.Settings.Json
/-!
Settings are read from what a text says.

`Value.settings?` gives the settings that a value stands for, or nothing where it is no
settings. `parse_toOption` says that reading a well-formed text comes to the same: the
blanks, the escapes and the layout of the text make no difference, only its value does.
-/

namespace CheckRounds

/-! ## What a value stands for -/

namespace Json

open Settings (Field Fields)

/-- The size that a value is, where it is an integer that fits an unsigned word. -/
def Value.size? : Value → Option UInt64
  | .number n =>
    match n.value? with
    | some (.natural m) => some m
    | _ => none
  | _ => none

end Json

namespace Settings

open Json

/-- What is noted of a member. A field that was met before, and one whose value is no
size, spoil the object; a key that names no field does not matter. -/
def Fields.note? (fs : Fields) (key : List Char) (v : Value) : Option Fields :=
  match Field.ofKey? key with
  | none => some fs
  | some field => if (fs.get? field).isSome then none else v.size?.map (fs.set · field)

def Fields.noteAll? (fs : Fields) (ms : List (List Char × Value)) : Option Fields :=
  ms.foldlM (fun gs m => gs.note? m.1 m.2) fs

/-- What the items of an array give for the fields in order; there may be fewer items
than fields. -/
def Fields.fill? (fs : Fields) : List Field → List Value → Option Fields
  | _, [] => some fs
  | [], _ :: _ => none
  | field :: fields, v :: vs => v.size?.bind fun n => (fs.set n field).fill? fields vs

end Settings

namespace Json

open Settings (Fields)

def Value.fields? : Value → Option Fields
  | .object ms => Fields.noteAll? {} ms
  | .array vs => Fields.fill? {} [.batchSize, .workerThreads] vs
  | _ => none

def Value.settings? (v : Value) : Option Settings := v.fields?.map Fields.complete

end Json

namespace Settings

open Json

/-! ## Sizes -/

theorem value?_eq_natural_iff {n : Numeral} {m : UInt64} :
    n.value? = some (.natural m) ↔ n.negative = false ∧ n.fraction = [] ∧
      n.exponent = none ∧ Text.digitsValue 0 n.whole = m.toNat := by
  have hm : m.toNat ≤ maxWord := Nat.le_of_lt_succ m.toNat_lt
  unfold Numeral.value?
  simp only
  split
  · rename_i hplain
    split
    · rename_i hword
      have hsize : Text.digitsValue 0 n.whole < UInt64.size := Nat.lt_succ_of_le hword.2
      simp only [Option.some.injEq, Number.natural.injEq, hplain, true_and]
      constructor
      · rintro rfl
        exact ⟨by simpa using hword.1, (UInt64.toNat_ofNat_of_lt' hsize).symm⟩
      · rintro ⟨-, hvalue⟩
        rw [hvalue, UInt64.ofNat_toNat]
    · rename_i hword
      have hnot : ¬ (n.negative = false ∧ Text.digitsValue 0 n.whole = m.toNat) := by
        rintro ⟨hnegative, hvalue⟩
        exact hword ⟨by simp [hnegative], by rw [hvalue]; exact hm⟩
      split <;> simp [hplain, hnot]
  · rename_i hplain
    have hnot :
        ¬ (n.fraction = [] ∧ n.exponent = none ∧ Text.digitsValue 0 n.whole = m.toNat) :=
      fun h => hplain ⟨h.1, h.2.1⟩
    simp [hnot]

/-- A size is an integer literal: among the well-formed numbers, each word has one. -/
theorem size?_eq_some_iff {v : Value} {cs : List Char} (h : Writes (.value v) cs)
    {m : UInt64} :
    v.size? = some m ↔ v = .ofNat m.toNat := by
  cases h with
  | value has hv hbs =>
    cases hv with
    | @number n cs hn =>
      have hsize : (Value.number n).size? = some m ↔ n.value? = some (.natural m) := by
        unfold Value.size?
        simp only
        split <;> simp_all
      rw [hsize, value?_eq_natural_iff]
      cases hn with
      | @mk negative whole fraction fs es exponent hwhole hfs hes =>
        simp only [Value.ofNat, Value.number.injEq, Numeral.mk.injEq, Text.digitsValue_eq]
        constructor
        · rintro ⟨rfl, rfl, rfl, hvalue⟩
          rw [← hvalue, Text.toDigits_ofDigitChars hwhole.digits hwhole.lone_zero]
          simp
        · rintro ⟨rfl, rfl, rfl, rfl⟩
          simp
    | _ => simp [Value.size?, Value.ofNat]

/-! ## Readers that may refuse -/

variable {ε α : Type} {cs rest : List Char} {v : Value} {fs gs : Fields} {field : Field}

theorem toOption_eq_some_iff {result : Except ε α} {x : α} :
    result.toOption = some x ↔ result = .ok x := by
  cases result <;> simp [Except.toOption]

theorem toOption_eq_none_iff {result : Except ε α} :
    result.toOption = none ↔ ∃ e, result = .error e := by
  cases result <;> simp [Except.toOption]

/-- The reader gives what is expected and leaves `rest`, perhaps with blanks in front;
where nothing is expected, it refuses. -/
def Gives (read : (cs : List Char) → Except ReadError (α × Rest cs)) (cs : List Char)
    (expected : Option α) (rest : List Char) : Prop :=
  match expected with
  | some x => ∃ bs h, Blanks bs ∧ read cs = .ok (x, ⟨bs ++ rest, h⟩)
  | none => ∃ e, read cs = .error e

theorem readSize_number {n : Numeral} {as bs : List Char} (has : Blanks as)
    (hn : n.Writes cs) (hbs : Blanks bs) (hrest : Delimits rest) :
    Gives readSize (as ++ (cs ++ (bs ++ rest))) (Value.number n).size? rest := by
  have hnumeral := numeral?_append hn (hrest.blanks hbs)
  obtain ⟨c, ds, rfl, hc⟩ := hn.exists_cons
  rw [List.cons_append] at hnumeral ⊢
  obtain ⟨h, hnumeral⟩ := hnumeral
  have hopens : (Value.number n).Opens c := hc
  obtain ⟨h', hnext⟩ := next?_append has hopens.not_isBlank (ds ++ (bs ++ rest))
  have hread : ∀ m, n.value? = some m →
      readNumber (c :: (ds ++ (bs ++ rest))) = .ok (m, ⟨bs ++ rest, h⟩) := by
    intro m hm
    simp only [readNumber, hnumeral, hm]
  cases hvalue : n.value? with
  | none =>
    simp only [Gives, Value.size?, hvalue]
    exact ⟨.malformed, by simp only [readSize, hnext, if_pos hc, readNumber,
      hnumeral, hvalue]⟩
  | some m =>
    cases m with
    | natural m =>
      simp only [Gives, Value.size?, hvalue]
      refine ⟨bs, Nat.lt_of_le_of_lt (Nat.le_of_lt_succ h) h', hbs, ?_⟩
      simp only [readSize, hnext, if_pos hc, hread _ hvalue]
      rfl
    | negative m =>
      simp only [Gives, Value.size?, hvalue]
      exact ⟨.negative m, by simp only [readSize, hnext, if_pos hc, hread _ hvalue]⟩
    | floating x =>
      simp only [Gives, Value.size?, hvalue]
      exact ⟨.wrongKind (.floating x) .size,
        by simp only [readSize, hnext, if_pos hc, hread _ hvalue]⟩

theorem readSize_of_next? {c : Char} {r : Rest cs} (h : next? cs = some (c, r))
    (hc : startsNumeral c = false) : readSize cs = .error (refuseKind .size c r.1) := by
  simp [readSize, h, hc]

theorem readSize_append (h : Writes (.value v) cs) (hrest : Delimits rest) :
    Gives readSize (cs ++ rest) v.size? rest := by
  by_cases hnumber : ∃ n, v = .number n
  · obtain ⟨n, rfl⟩ := hnumber
    cases h with
    | value has hv hbs =>
      cases hv with
      | number hn =>
        rw [List.append_assoc, List.append_assoc]
        exact readSize_number has hn hbs hrest
  · obtain ⟨c, ds, hc, _, hnext⟩ := next?_value h rest
    have hother : v.size? = none ∧ startsNumeral c = false := by
      cases v with
      | number n => exact absurd ⟨n, rfl⟩ hnumber
      | boolean b => cases b <;> exact ⟨rfl, by rw [hc]; decide⟩
      | _ => exact ⟨rfl, by rw [hc]; decide⟩
    simp only [Gives, hother.1]
    exact ⟨_, readSize_of_next? hnext hother.2⟩

/-! ## Objects -/

theorem Field.all_isPlain_key (field : Field) : field.key.all isPlain = true := by
  cases field <;> rfl

theorem Field.spells_key (field : Field) : Spells field.key field.key :=
  .of_plain field.all_isPlain_key

theorem Field.ofKey?_key (field : Field) : Field.ofKey? field.key = some field := by
  cases field <;> decide

theorem readField_append {bs : List Char} (hbs : Blanks bs) (h : Writes (.value v) cs)
    (hrest : Delimits rest) :
    Gives (readField fs field) (bs ++ ':' :: (cs ++ rest))
      (if (fs.get? field).isSome then none else v.size?.map (fs.set · field)) rest := by
  obtain ⟨hlt, hcolon⟩ := next?_append hbs (by decide : isBlank ':' = false) (cs ++ rest)
  have hsize := readSize_append h hrest
  split
  · rename_i hmet
    exact ⟨.duplicate field, by rw [readField, if_pos hmet]⟩
  · rename_i hmet
    cases hv : v.size? with
    | none =>
      rw [hv] at hsize
      obtain ⟨e, hsize⟩ := hsize
      exact ⟨e, by simp only [readField, if_neg hmet, hcolon, hsize]⟩
    | some n =>
      rw [hv] at hsize
      obtain ⟨ws, hlt', hws, hsize⟩ := hsize
      refine ⟨ws, Nat.lt_trans hlt' hlt, hws, ?_⟩
      simp only [readField, if_neg hmet, hcolon, hsize]
      rfl

theorem skipMember_append {bs : List Char} (hbs : Blanks bs) (h : Writes (.value v) cs)
    (hrest : Delimits rest) :
    ∃ ws hlt, Blanks ws ∧
    skipMember (bs ++ ':' :: (cs ++ rest)) = .ok ⟨ws ++ rest, hlt⟩ := by
  obtain ⟨hlt, hcolon⟩ := next?_append hbs (by decide : isBlank ':' = false) (cs ++ rest)
  obtain ⟨ws, hws, hlt', hskip⟩ := h.isSkipped rest hrest
  refine ⟨ws, Nat.lt_trans hlt' hlt, hws, ?_⟩
  simp only [skipMember, hcolon, hskip]
  rfl

theorem readMember_append {key bs : List Char} (hbs : Blanks bs)
    (h : Writes (.value v) cs) (hrest : Delimits rest) :
    Gives (readMember fs key) (bs ++ ':' :: (cs ++ rest)) (fs.note? key v) rest := by
  unfold Fields.note?
  cases hkey : Field.ofKey? key with
  | some field =>
    have hread : readMember fs key (bs ++ ':' :: (cs ++ rest)) =
        readField fs field (bs ++ ':' :: (cs ++ rest)) := by
      simp only [readMember, hkey]
    simpa only [Gives, hread] using readField_append hbs h hrest
  | none =>
    obtain ⟨ws, hlt, hws, hskip⟩ := skipMember_append hbs h hrest
    exact ⟨ws, hlt, hws, by simp only [readMember, hkey, hskip]⟩

/-- A key in its quotes is read, and `rest` is left. -/
def ReadsKey (cs key rest : List Char) : Prop :=
  ∃ ks, Reads next? cs '"' ks ∧ Reads string? ks key rest

theorem readMembers_last {key ks : List Char} {expected : Option Fields}
    (hkey : ReadsKey cs key ks)
    (hmember : Gives (readMember fs key) ks expected ('\x7d' :: rest)) :
    (readMembers fs cs).toOption = expected.map fun gs => (gs, rest) := by
  obtain ⟨ds, ⟨_, hquote⟩, _, hstring⟩ := hkey
  rw [readMembers, hquote]
  cases expected with
  | none =>
    obtain ⟨e, hmember⟩ := hmember
    simp only [hstring, hmember]
    rfl
  | some gs =>
    obtain ⟨bs, _, hbs, hmember⟩ := hmember
    obtain ⟨_, hclose⟩ := next?_append hbs (by decide : isBlank '\x7d' = false) rest
    simp only [hstring, hmember, hclose]
    rfl

theorem readMembers_more {key ks : List Char} {expected : Option Fields}
    (hkey : ReadsKey cs key ks)
    (hmember : Gives (readMember fs key) ks expected (',' :: rest)) :
    (readMembers fs cs).toOption = expected.bind fun gs =>
      (readMembers gs rest).toOption := by
  obtain ⟨ds, ⟨_, hquote⟩, _, hstring⟩ := hkey
  rw [readMembers, hquote]
  cases expected with
  | none =>
    obtain ⟨e, hmember⟩ := hmember
    simp only [hstring, hmember]
    rfl
  | some gs =>
    obtain ⟨bs, _, hbs, hmember⟩ := hmember
    obtain ⟨_, hcomma⟩ := next?_append hbs (by decide : isBlank ',' = false) rest
    simp only [hstring, hmember, hcomma]
    rfl

/-- The text of a member is its key and, behind the colon, its value. -/
theorem readsKey_append {key : List Char} (h : Writes (.member key v) cs) :
    ∃ bs vs, Blanks bs ∧ Writes (.value v) vs ∧
      ∀ rest, ReadsKey (cs ++ rest) key (bs ++ ':' :: (vs ++ rest)) := by
  cases h with
  | @member key v as ks bs vs has hkey hbs hv =>
    refine ⟨bs, vs, hbs, hv, fun rest =>
      ⟨ks ++ '"' :: (bs ++ ':' :: (vs ++ rest)), ?_, ?_⟩⟩
    · simpa using next?_append has (by decide : isBlank '"' = false) _
    · exact string?_append hkey _

theorem readMembers_member_last {key : List Char} (hm : Writes (.member key v) cs)
    (rest : List Char) :
    (readMembers fs (cs ++ '\x7d' :: rest)).toOption = (fs.note? key v).map fun gs =>
      (gs, rest) := by
  obtain ⟨bs, vs, hbs, hv, hkey⟩ := readsKey_append hm
  exact readMembers_last (hkey _)
    (readMember_append hbs hv (.of_not_isDigit (by decide) (by decide) (by decide) rest))

theorem readMembers_member_more {key : List Char} (hm : Writes (.member key v) cs)
    (rest : List Char) :
    (readMembers fs (cs ++ ',' :: rest)).toOption =
      (fs.note? key v).bind fun gs => (readMembers gs rest).toOption := by
  obtain ⟨bs, vs, hbs, hv, hkey⟩ := readsKey_append hm
  exact readMembers_more (hkey _)
    (readMember_append hbs hv (.of_not_isDigit (by decide) (by decide) (by decide) rest))

theorem readMembers_append {ms : List (List Char × Value)} (h : Writes (.members ms) cs)
    (rest : List Char) :
    (readMembers fs (cs ++ '\x7d' :: rest)).toOption = (fs.noteAll? ms).map fun gs =>
      (gs, rest) := by
  induction ms generalizing fs cs with
  | nil => cases h
  | cons m ms ih =>
    cases h with
    | lastMember hm =>
      rw [readMembers_member_last hm]
      simp [Fields.noteAll?]
    | @members key v ms cs ds hm hms =>
      rw [List.append_assoc, List.cons_append, readMembers_member_more hm]
      cases hnote : fs.note? key v with
      | none => simp [Fields.noteAll?, hnote]
      | some gs => simpa [Fields.noteAll?, hnote] using ih hms

theorem readObject_empty {bs : List Char} (hbs : Blanks bs) (rest : List Char) :
    (readObject (bs ++ '\x7d' :: rest)).toOption =
      (Fields.noteAll? {} []).map fun gs => (gs, rest) := by
  obtain ⟨_, hclose⟩ := next?_append hbs (by decide : isBlank '\x7d' = false) rest
  simp only [readObject, hclose]
  rfl

/-- Members begin with a quote. -/
theorem readObject_of_readsKey {key : List Char} (hkey : ReadsKey cs key rest) :
    readObject cs = readMembers {} cs := by
  obtain ⟨ks, ⟨_, hquote⟩, -⟩ := hkey
  simp [readObject, hquote]

theorem readObject_append {ms : List (List Char × Value)} (h : Writes (.members ms) cs)
    (rest : List Char) :
    (readObject (cs ++ '\x7d' :: rest)).toOption =
      (Fields.noteAll? {} ms).map fun gs => (gs, rest) := by
  have hkey : ∃ key ks, ReadsKey (cs ++ '\x7d' :: rest) key ks := by
    cases h with
    | lastMember hm =>
      obtain ⟨bs, vs, -, -, hkey⟩ := readsKey_append hm
      exact ⟨_, _, hkey _⟩
    | members hm hms =>
      obtain ⟨bs, vs, -, -, hkey⟩ := readsKey_append hm
      rw [List.append_assoc]
      exact ⟨_, _, hkey _⟩
  obtain ⟨key, ks, hkey⟩ := hkey
  rw [readObject_of_readsKey hkey, readMembers_append h rest]

/-! ## Arrays -/

theorem readElements_last {expected : Option UInt64} (fields : List Field)
    (hsize : Gives readSize cs expected (']' :: rest)) :
    (readElements fs cs (field :: fields)).toOption = expected.map fun n =>
      (fs.set n field, rest) := by
  cases expected with
  | none =>
    obtain ⟨e, hsize⟩ := hsize
    simp only [readElements, hsize]
    rfl
  | some n =>
    obtain ⟨bs, _, hbs, hsize⟩ := hsize
    obtain ⟨_, hclose⟩ := next?_append hbs (by decide : isBlank ']' = false) rest
    simp only [readElements, hsize, hclose]
    rfl

theorem readElements_more {expected : Option UInt64} (fields : List Field)
    (hsize : Gives readSize cs expected (',' :: rest)) :
    (readElements fs cs (field :: fields)).toOption =
      expected.bind fun n => (readElements (fs.set n field) rest fields).toOption := by
  cases expected with
  | none =>
    obtain ⟨e, hsize⟩ := hsize
    simp only [readElements, hsize]
    rfl
  | some n =>
    obtain ⟨bs, _, hbs, hsize⟩ := hsize
    obtain ⟨_, hcomma⟩ := next?_append hbs (by decide : isBlank ',' = false) rest
    simp only [readElements, hsize, hcomma]
    rfl

theorem readElements_append {fields : List Field} {vs : List Value}
    (h : Writes (.items vs) cs) (rest : List Char) :
    (readElements fs (cs ++ ']' :: rest) fields).toOption =
      (fs.fill? fields vs).map fun gs => (gs, rest) := by
  induction vs generalizing fs cs fields with
  | nil => cases h
  | cons v vs ih =>
    cases fields with
    | nil => rfl
    | cons field fields =>
      cases h with
      | lastItem hv =>
        have hsize : Gives readSize (cs ++ ']' :: rest) v.size? (']' :: rest) :=
          readSize_append hv (.of_not_isDigit (by decide) (by decide) (by decide) rest)
        rw [readElements_last fields hsize]
        cases hn : v.size? <;> simp [Fields.fill?, hn]
      | @item v vs cs ds hv hvs =>
        have hsize : Gives readSize (cs ++ ',' :: (ds ++ ']' :: rest)) v.size?
            (',' :: (ds ++ ']' :: rest)) :=
          readSize_append hv (.of_not_isDigit (by decide) (by decide) (by decide) _)
        rw [List.append_assoc, List.cons_append, readElements_more fields hsize]
        cases hn : v.size? with
        | none => simp [Fields.fill?, hn]
        | some n => simpa [Fields.fill?, hn] using ih hvs

theorem readArray_empty {bs : List Char} (hbs : Blanks bs) (rest : List Char) :
    (readArray (bs ++ ']' :: rest)).toOption =
      (Fields.fill? {} [.batchSize, .workerThreads] []).map fun gs => (gs, rest) := by
  obtain ⟨_, hclose⟩ := next?_append hbs (by decide : isBlank ']' = false) rest
  simp only [readArray, hclose]
  rfl

theorem readArray_append {vs : List Value} (h : Writes (.items vs) cs)
    (rest : List Char) :
    (readArray (cs ++ ']' :: rest)).toOption =
      (Fields.fill? {} [.batchSize, .workerThreads] vs).map fun gs => (gs, rest) := by
  have hfirst : ∃ (v : Value) (c : Char) (ds : List Char), v.Opens c ∧
      Reads next? (cs ++ ']' :: rest) c ds := by
    cases h with
    | lastItem hv => exact ⟨_, next?_value hv _⟩
    | item hv hvs =>
      rw [List.append_assoc]
      exact ⟨_, next?_value hv _⟩
  obtain ⟨v, c, ds, hc, _, hnext⟩ := hfirst
  have hclose : c ≠ ']' := hc.ne (by decide) (by decide)
  rw [← readElements_append h rest, readArray, hnext]
  split
  · simp_all
  · rfl

/-! ## Whole texts -/

theorem readSettings_of_next? {c : Char} {r : Rest cs} (h : next? cs = some (c, r))
    (hobject : c ≠ '\x7b') (harray : c ≠ '[') : (readSettings cs).toOption = none := by
  rw [readSettings, h]
  simp only [if_neg hobject, if_neg harray]
  rfl

theorem readSettings_object {as : List Char} (has : Blanks as) (cs : List Char) :
    readSettings (as ++ '\x7b' :: cs) = readObject cs := by
  obtain ⟨_, hopen⟩ := next?_append has (by decide : isBlank '\x7b' = false) cs
  rw [readSettings, hopen]
  simp only [if_true]

theorem readSettings_array {as : List Char} (has : Blanks as) (cs : List Char) :
    readSettings (as ++ '[' :: cs) = readArray cs := by
  obtain ⟨_, hopen⟩ := next?_append has (by decide : isBlank '[' = false) cs
  have hbrace : ('[' : Char) ≠ '\x7b' := by decide
  rw [readSettings, hopen]
  simp only [if_neg hbrace, if_true]

/-- The first character of a value that is no object and no array opens no settings. -/
theorem ne_bracket_of_opens {c : Char} (hc : v.Opens c) (hobject : ∀ ms, v ≠ .object ms)
    (harray : ∀ vs, v ≠ .array vs) : c ≠ '\x7b' ∧ c ≠ '[' := by
  cases v with
  | number n =>
    exact ⟨ne_of_startsNumeral hc (by decide), ne_of_startsNumeral hc (by decide)⟩
  | boolean b =>
    cases b <;>
    · subst hc
      decide
  | array vs => exact absurd rfl (harray vs)
  | object ms => exact absurd rfl (hobject ms)
  | _ =>
    subst hc
    decide

theorem readSettings_append {as : List Char} (has : Blanks as) (h : Writes (.bare v) cs)
    (rest : List Char) :
    (readSettings (as ++ (cs ++ rest))).toOption = v.fields?.map fun gs =>
      (gs, rest) := by
  have hother (hobject : ∀ ms, v ≠ .object ms) (harray : ∀ vs, v ≠ .array vs) :
      (readSettings (as ++ (cs ++ rest))).toOption = none := by
    obtain ⟨c, ds, rfl, hc⟩ := h.exists_opening
    obtain ⟨_, hnext⟩ := next?_append has hc.not_isBlank (ds ++ rest)
    obtain ⟨hbrace, hbracket⟩ := ne_bracket_of_opens hc hobject harray
    exact readSettings_of_next? hnext hbrace hbracket
  cases h with
  | emptyObject hbs =>
    rw [List.append_assoc, List.cons_append, readSettings_object has]
    exact readObject_empty hbs rest
  | object hms =>
    rw [List.append_assoc, List.cons_append, readSettings_object has]
    exact readObject_append hms rest
  | emptyArray hbs =>
    rw [List.append_assoc, List.cons_append, readSettings_array has]
    exact readArray_empty hbs rest
  | array hvs =>
    rw [List.append_assoc, List.cons_append, readSettings_array has]
    exact readArray_append hvs rest
  | _ => exact hother (by simp) (by simp)

/-- Behind settings, a text may go on with blanks only. -/
theorem parse_of_readSettings {text : List Char} {x : Option Fields}
    (h : (readSettings text).toOption = x.map fun gs => (gs, rest)) :
    (parse text).toOption = if (next? rest).isNone then
    x.map Fields.complete else none := by
  unfold parse
  cases hread : readSettings text with
  | error e =>
    rw [hread] at h
    cases x with
    | none => simp [Except.toOption]
    | some gs => cases h
  | ok p =>
    rw [hread] at h
    cases x with
    | none => cases h
    | some gs =>
      cases h
      simp only [Option.map_some]
      split <;> rfl

/-- The blanks behind a value are read over, so reading a well-formed text is reading
its value. -/
theorem parse_toOption {text : List Char} (h : Writes (.value v) text) :
    (parse text).toOption = v.settings? := by
  cases h with
  | @value v as cs bs has hv hbs =>
    rw [List.append_assoc, parse_of_readSettings (readSettings_append has hv bs),
      next?_eq_none_iff.2 hbs]
    rfl

end Settings

end CheckRounds
