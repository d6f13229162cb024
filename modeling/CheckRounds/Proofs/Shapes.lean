import CheckRounds.Proofs.Settings.Reading
/-!
Which well-formed texts are settings.

An object is settings when each known key stands there at most once and gives an integer
literal that fits an unsigned word; whatever else is in it makes no difference. An array
is settings when it gives such integers for the fields in order, and nothing behind the
last field. No other value is.
-/

namespace CheckRounds.Settings

open Json

/-- The value of a field. -/
def get (s : Settings) : Field → UInt64
  | .batchSize => s.batchSize
  | .workerThreads => s.workerThreads

/-- The values that members give for a field, one for each time that its key stands
there. -/
def Field.valuesIn (field : Field) (ms : List (List Char × Value)) : List Value :=
  (ms.filter fun m => m.1 = field.key).map (·.2)

/-! ## Keys -/

theorem Field.key_injective {field field' : Field} (h : field.key = field'.key) :
    field = field' := by
  cases field <;> cases field' <;> first | rfl | exact absurd h (by decide)

theorem Field.ofKey?_eq_some_iff {key : List Char} {field : Field} :
    Field.ofKey? key = some field ↔ key = field.key := by
  constructor
  · unfold Field.ofKey?
    split
    · rename_i h
      rintro ⟨⟩
      exact h
    · split
      · rename_i h
        rintro ⟨⟩
        exact h
      · intro h
        cases h
  · rintro rfl
    exact field.ofKey?_key

/-! ## One field -/

/-- What is noted for a field in the end, if `old` was noted before and `vs` are given
for it now. A second value spoils the object, and so does one that is no size. -/
def settle? : Option UInt64 → List Value → Option (Option UInt64)
  | old, [] => some old
  | some _, _ :: _ => none
  | none, v :: vs => v.size?.bind fun n => settle? (some n) vs

theorem settle?_cons (old : Option UInt64) (v : Value) (vs : List Value) :
    settle? old (v :: vs) = if old.isSome then none else v.size?.bind fun n =>
      settle? (some n) vs := by
  cases old <;> rfl

theorem settle?_none_iff {vs : List Value} {x : Option UInt64} :
    settle? none vs = some x ↔
      vs = [] ∧ x = none ∨ ∃ v n, vs = [v] ∧ v.size? = some n ∧ x = some n := by
  match vs with
  | [] => simp [settle?, eq_comm]
  | [v] => cases hv : v.size? <;> simp [settle?, hv, eq_comm]
  | v :: w :: vs => cases hv : v.size? <;> simp [settle?, hv]

theorem exists_settle?_none_iff {vs : List Value} :
    (∃ x, settle? none vs = some x) ↔ vs.length ≤ 1 ∧
    ∀ v ∈ vs, ∃ n, v.size? = some n := by
  match vs with
  | [] => simp [settle?]
  | [v] => cases hv : v.size? <;> simp [settle?, hv]
  | v :: w :: vs => cases hv : v.size? <;> simp [settle?, hv]

/-- The order of the values does not matter: more than one spoil the object in any
order. -/
theorem settle?_perm {vs vs' : List Value} (h : vs'.Perm vs) :
    settle? none vs' = settle? none vs := by
  have hnil : vs' = [] ↔ vs = [] :=
    ⟨fun h' => by simpa [h'] using h, fun h' => by simpa [h'] using h⟩
  have hone : ∀ v, vs' = [v] ↔ vs = [v] := fun v =>
    ⟨fun h' => by simpa [h'] using h.symm, fun h' => by simpa [h'] using h⟩
  ext x
  rw [settle?_none_iff, settle?_none_iff, hnil]
  simp only [hone]

/-! ## All fields -/

theorem Fields.eq_of_get? {fs gs : Fields} (h : ∀ field, fs.get? field = gs.get? field) :
    fs = gs := by
  obtain ⟨b, w⟩ := fs
  obtain ⟨b', w'⟩ := gs
  have hb : b = b' := h .batchSize
  have hw : w = w' := h .workerThreads
  rw [hb, hw]

theorem Fields.get?_set (fs : Fields) (n : UInt64) (field field' : Field) :
    (fs.set n field).get? field' = if field = field' then some n else fs.get? field' := by
  cases field <;> cases field' <;> rfl

theorem Fields.get_complete (fs : Fields) (field : Field) :
    fs.complete.get field = (fs.get? field).getD (({} : Settings).get field) := by
  cases field <;> rfl

theorem Field.valuesIn_cons (field : Field) (key : List Char) (v : Value)
    (ms : List (List Char × Value)) :
    field.valuesIn ((key, v) :: ms) =
      if key = field.key then v :: field.valuesIn ms else field.valuesIn ms := by
  by_cases h : key = field.key <;> simp [Field.valuesIn, h]

theorem Fields.noteAll?_cons (fs : Fields) (key : List Char) (v : Value)
    (ms : List (List Char × Value)) :
    fs.noteAll? ((key, v) :: ms) = (fs.note? key v).bind fun gs => gs.noteAll? ms := rfl

/-- Members are noted field by field, whatever stands between them. -/
theorem Fields.noteAll?_eq_some_iff {fs gs : Fields} {ms : List (List Char × Value)} :
    fs.noteAll? ms = some gs ↔
      ∀ field : Field,
      settle? (fs.get? field) (field.valuesIn ms) = some (gs.get? field) := by
  induction ms generalizing fs with
  | nil =>
    have hnone : ∀ field : Field,
        settle? (fs.get? field) (field.valuesIn []) = some (fs.get? field) := by
      intro field
      rw [settle?.eq_def]
      cases fs.get? field <;> rfl
    simp only [hnone, Option.some.injEq]
    constructor
    · rintro ⟨⟩
      exact fun _ => rfl
    · intro h
      rw [Fields.eq_of_get? h]
      rfl
  | cons m ms ih =>
    obtain ⟨key, v⟩ := m
    rw [Fields.noteAll?_cons]
    cases hkey : Field.ofKey? key with
    | none =>
      have hother : ∀ field : Field, key ≠ field.key := fun field h => by
        rw [Field.ofKey?_eq_some_iff.2 h] at hkey
        cases hkey
      simp [Fields.note?, hkey, ih, Field.valuesIn_cons, hother]
    | some f =>
      obtain rfl := Field.ofKey?_eq_some_iff.1 hkey
      cases hmet : (fs.get? f).isSome with
      | true =>
        refine iff_of_false (by simp [Fields.note?, hkey, hmet]) fun hall => ?_
        have hf := hall f
        rw [Field.valuesIn_cons, if_pos rfl, settle?_cons, hmet] at hf
        cases hf
      | false =>
        cases hv : v.size? with
        | none =>
          refine iff_of_false (by simp [Fields.note?, hkey, hmet, hv]) fun hall => ?_
          have hf := hall f
          rw [Field.valuesIn_cons, if_pos rfl, settle?_cons, hmet, hv] at hf
          cases hf
        | some n =>
          have hnote : fs.note? f.key v = some (fs.set n f) := by
            simp [Fields.note?, hkey, hmet, hv]
          rw [hnote, Option.bind_some, ih]
          refine forall_congr' fun field => ?_
          rw [Fields.get?_set, Field.valuesIn_cons]
          by_cases hfield : f = field
          · subst hfield
            rw [if_pos rfl, if_pos rfl, settle?_cons, hmet, hv]
            rfl
          · rw [if_neg hfield, if_neg fun h => hfield (Field.key_injective h)]

/-! ## Objects -/

variable {ms ms' : List (List Char × Value)} {vs : List Value} {v : Value}
  {text text' : List Char} {s : Settings}

theorem parse_eq_ok_iff (h : Writes (.value v) text) :
    parse text = .ok s ↔ ∃ gs, v.fields? = some gs ∧ gs.complete = s := by
  rw [← toOption_eq_some_iff, parse_toOption h, Value.settings?, Option.map_eq_some_iff]

theorem exists_parse_iff (h : Writes (.value v) text) :
    (∃ s, parse text = .ok s) ↔ ∃ gs, v.fields? = some gs := by
  constructor
  · rintro ⟨s, hs⟩
    obtain ⟨gs, hgs, -⟩ := (parse_eq_ok_iff h).1 hs
    exact ⟨gs, hgs⟩
  · rintro ⟨gs, hgs⟩
    exact ⟨gs.complete, (parse_eq_ok_iff h).2 ⟨gs, hgs, rfl⟩⟩

theorem fields?_object_iff {gs : Fields} :
    (Value.object ms).fields? = some gs ↔
      ∀ field : Field, settle? none (field.valuesIn ms) = some (gs.get? field) := by
  have hnone : ∀ field : Field, ({} : Fields).get? field = none := fun field => by
    cases field <;> rfl
  change Fields.noteAll? {} ms = some gs ↔ _
  rw [Fields.noteAll?_eq_some_iff]
  simp only [hnone]

theorem exists_fields?_object_iff :
    (∃ gs, (Value.object ms).fields? = some gs) ↔
      ∀ field : Field, ∃ x, settle? none (field.valuesIn ms) = some x := by
  constructor
  · rintro ⟨gs, hgs⟩ field
    exact ⟨_, fields?_object_iff.1 hgs field⟩
  · intro h
    obtain ⟨b, hb⟩ := h .batchSize
    obtain ⟨w, hw⟩ := h .workerThreads
    refine ⟨⟨b, w⟩, fields?_object_iff.2 fun field => ?_⟩
    cases field with
    | batchSize => exact hb
    | workerThreads => exact hw

theorem Field.mem_valuesIn {field : Field} :
    v ∈ field.valuesIn ms ↔ (field.key, v) ∈ ms := by
  simp [Field.valuesIn]

theorem exists_size_iff (h : ∃ cs, Writes (.value v) cs) :
    (∃ n, v.size? = some n) ↔ ∃ n : UInt64, v = .ofNat n.toNat := by
  obtain ⟨cs, h⟩ := h
  exact exists_congr fun n => size?_eq_some_iff h

theorem ofNat_injective {m n : Nat} (h : Value.ofNat m = Value.ofNat n) : m = n := by
  have hdigits : Nat.toDigits 10 m = Nat.toDigits 10 n := by simpa [Value.ofNat] using h
  rw [← Nat.ofDigitChars_ten_toDigits (n := m), hdigits, Nat.ofDigitChars_ten_toDigits]

/-- What is read of an object with the members `ms`. -/
structure ReadsObject (ms : List (List Char × Value)) (text : List Char) : Prop where
  accepted : (∃ s, parse text = .ok s) ↔ ∀ field : Field, (field.valuesIn ms).length ≤ 1 ∧
    ∀ v ∈ field.valuesIn ms, ∃ n : UInt64, v = .ofNat n.toNat
  given : ∀ s, parse text = .ok s →
    ∀ (field : Field) (n : Nat), (field.key, .ofNat n) ∈ ms →
    (s.get field).toNat = n
  absent : ∀ s, parse text = .ok s →
    ((∀ v, (Field.batchSize.key, v) ∉ ms) → s.batchSize = 128) ∧
    ((∀ v, (Field.workerThreads.key, v) ∉ ms) → s.workerThreads = 0)
  /-- Only the values of the two fields matter, in no order. -/
  alike : ∀ ms' text', Writes (.value (.object ms')) text' →
    (∀ field : Field, (field.valuesIn ms').Perm (field.valuesIn ms)) →
    ∀ s, parse text' = .ok s ↔ parse text = .ok s

theorem readsObject (h : Writes (.value (.object ms)) text) : ReadsObject ms text where
  accepted := by
    have hvalues : ∀ field : Field, ∀ v ∈ field.valuesIn ms, ∃ cs, Writes (.value v) cs :=
      fun field v hv => h.exists_of_mem_object _ (Field.mem_valuesIn.1 hv)
    calc (∃ s, parse text = .ok s)
        ↔ ∃ gs, (Value.object ms).fields? = some gs := exists_parse_iff h
      _ ↔ ∀ field : Field, ∃ x, settle? none (field.valuesIn ms) = some x :=
        exists_fields?_object_iff
      _ ↔ _ := forall_congr' fun field => exists_settle?_none_iff.trans <|
        and_congr_right fun _ => forall₂_congr fun v hv =>
          exists_size_iff (hvalues field v hv)
  given := by
    intro s hs field n hn
    obtain ⟨gs, hgs, rfl⟩ := (parse_eq_ok_iff h).1 hs
    obtain ⟨cs, hwrites⟩ := h.exists_of_mem_object _ hn
    have hmem := Field.mem_valuesIn.2 hn
    obtain ⟨hnil, -⟩ | ⟨v, m, hvs, hm, hget⟩ :=
      settle?_none_iff.1 (fields?_object_iff.1 hgs field)
    · rw [hnil] at hmem
      cases hmem
    · obtain rfl : Value.ofNat n = v := by simpa [hvs] using hmem
      rw [Fields.get_complete, hget, Option.getD_some]
      exact (ofNat_injective ((size?_eq_some_iff hwrites).1 hm)).symm
  absent := by
    intro s hs
    obtain ⟨gs, hgs, rfl⟩ := (parse_eq_ok_iff h).1 hs
    have hdefault : ∀ field : Field, (∀ v, (field.key, v) ∉ ms) →
        gs.complete.get field = ({} : Settings).get field := by
      intro field habsent
      have hnil : field.valuesIn ms = [] :=
        List.eq_nil_iff_forall_not_mem.2 fun v hv => habsent v (Field.mem_valuesIn.1 hv)
      have hget := fields?_object_iff.1 hgs field
      rw [hnil] at hget
      rw [Fields.get_complete, ← Option.some.inj hget, Option.getD_none]
    exact ⟨hdefault .batchSize, hdefault .workerThreads⟩
  alike := by
    intro ms' text' h' hperm s
    have hfields : ∀ gs, (Value.object ms').fields? = some gs ↔
        (Value.object ms).fields? = some gs := by
      intro gs
      rw [fields?_object_iff, fields?_object_iff]
      exact forall_congr' fun field => by rw [settle?_perm (hperm field)]
    simp only [parse_eq_ok_iff h', parse_eq_ok_iff h, hfields]

/-! ## Arrays -/

theorem exists_fill?_iff {fs : Fields} {fields : List Field} :
    (∃ gs, fs.fill? fields vs = some gs) ↔
      vs.length ≤ fields.length ∧ ∀ v ∈ vs, ∃ n, v.size? = some n := by
  induction vs generalizing fs fields with
  | nil => simp [Fields.fill?]
  | cons v vs ih =>
    cases fields with
    | nil => simp [Fields.fill?]
    | cons field fields =>
      cases hv : v.size? with
      | none => simp [Fields.fill?, hv]
      | some n => simpa [Fields.fill?, hv] using ih

/-- The members that give the first fields the values `vs` in order. -/
def leading (vs : List Value) : List (List Char × Value) :=
  [Field.batchSize.key, Field.workerThreads.key].zip vs

theorem fields?_leading (h : vs.length ≤ 2) :
    (Value.object (leading vs)).fields? = (Value.array vs).fields? := by
  match vs with
  | [] => rfl
  | [v] =>
    cases hv : v.size? <;>
      simp [leading, Value.fields?, Fields.fill?, Fields.noteAll?, Fields.note?,
        Fields.get?, Field.ofKey?_key, hv]
  | [v, w] =>
    cases hv : v.size? <;> cases hw : w.size? <;>
      simp [leading, Value.fields?, Fields.fill?, Fields.noteAll?, Fields.note?,
        Fields.get?, Fields.set, Field.ofKey?_key, hv, hw]
  | _ :: _ :: _ :: _ => simp at h

/-- What is read of an array with the items `vs`. -/
structure ReadsArray (vs : List Value) (text : List Char) : Prop where
  accepted : (∃ s, parse text = .ok s) ↔
    vs.length ≤ 2 ∧ ∀ v ∈ vs, ∃ n : UInt64, v = .ofNat n.toNat
  /-- There is an object that gives the same fields, and all of them are read alike. -/
  as_object : vs.length ≤ 2 → (∃ text', Writes (.value (.object (leading vs))) text') ∧
    ∀ text', Writes (.value (.object (leading vs))) text' → ∀ s, parse text' = .ok s ↔
    parse text = .ok s

theorem readsArray (h : Writes (.value (.array vs)) text) : ReadsArray vs text where
  accepted := by
    calc (∃ s, parse text = .ok s)
        ↔ ∃ gs, (Value.array vs).fields? = some gs := exists_parse_iff h
      _ ↔ vs.length ≤ 2 ∧ ∀ v ∈ vs, ∃ n, v.size? = some n := exists_fill?_iff
      _ ↔ _ := and_congr_right fun _ => forall₂_congr fun v hv =>
        exists_size_iff (h.exists_of_mem_array v hv)
  as_object := by
    intro hlength
    constructor
    · refine exists_writes_object fun m hm => ?_
      obtain ⟨hkey, hv⟩ := List.of_mem_zip hm
      have hspelled : ∃ field : Field, m.1 = field.key := by
        rcases List.mem_cons.1 hkey with hkey | hkey
        · exact ⟨_, hkey⟩
        · exact ⟨_, List.mem_singleton.1 hkey⟩
      obtain ⟨field, hfield⟩ := hspelled
      exact ⟨⟨_, hfield ▸ field.spells_key⟩, h.exists_of_mem_array _ hv⟩
    · intro text' h' s
      rw [parse_eq_ok_iff h', parse_eq_ok_iff h, fields?_leading hlength]

/-! ## Every well-formed text -/

theorem parse_exact (h : Writes (.value v) text) :
    (∀ ms, v = .object ms → ReadsObject ms text) ∧
    (∀ vs, v = .array vs → ReadsArray vs text) ∧
    ((∀ ms, v ≠ .object ms) → (∀ vs, v ≠ .array vs) → ∃ e, parse text = .error e) := by
  refine ⟨?_, ?_, ?_⟩
  · rintro ms rfl
    exact readsObject h
  · rintro vs rfl
    exact readsArray h
  · intro hobject harray
    have hnone : v.fields? = none := by
      cases v with
      | array vs => exact absurd rfl (harray vs)
      | object ms => exact absurd rfl (hobject ms)
      | _ => rfl
    exact toOption_eq_none_iff.1 (by rw [parse_toOption h, Value.settings?, hnone]; rfl)

/-- A key in an unknown member is no key of the object, and one with an escape in it
is. -/
theorem nested_key_ignored :
    parse "\x7b\"x\":[ \x7b\"batch_size\":1\x7d ], \"worker\\u005fthreads\":3 \x7d".toList =
      .ok { batchSize := 128, workerThreads := 3 } := by
  let inner : Value := .object [(Field.batchSize.key, .ofNat 1)]
  let ms : List (List Char × Value) :=
    [(['x'], .array [inner]), (Field.workerThreads.key, .ofNat 3)]
  have hspace : Blanks [' '] := by simp [Blanks, isBlank]
  have hinner : Writes (.value inner) _ := .value hspace (.object (.lastMember
    (.member .nil Field.batchSize.spells_key .nil (.value .nil (.ofNat 1) .nil)))) hspace
  have hfirst := Writes.member .nil (Spells.of_plain rfl : Spells ['x'] ['x']) .nil
    (.value .nil (.array (.lastItem hinner)) .nil)
  have hunit : HexUnit ['0', '0', '5', 'f'] 0x5f :=
    .mk (i := 0) (j := 0) (k := 5) (l := 15) ⟨by decide, .inl rfl⟩ ⟨by decide, .inl rfl⟩
      ⟨by decide, .inl rfl⟩ ⟨by decide, .inl rfl⟩
  have hkey :
      Spells ("worker".toList ++ ("\\u005f".toList ++ "threads".toList))
      Field.workerThreads.key :=
    (Spells.of_plain rfl).append (.unit hunit (by decide) (.of_plain rfl))
  have hsecond := Writes.member hspace hkey .nil (.value .nil (.ofNat 3) hspace)
  have h : Writes (.value (.object ms)) _ :=
    .value .nil (.object (.members hfirst (.lastMember hsecond))) .nil
  obtain ⟨accepted, given, absent, -⟩ := (parse_exact h).1 ms rfl
  obtain ⟨s, hs⟩ := accepted.2 fun field => by
    cases field with
    | batchSize => exact ⟨by decide, fun v hv => by cases hv⟩
    | workerThreads => exact ⟨by decide, fun v hv => ⟨3, List.mem_singleton.1 hv⟩⟩
  have hbatch : s.batchSize = 128 := (absent s hs).1 fun v hv => by
    have hnone := Field.mem_valuesIn.2 hv
    cases hnone
  have hworkers : s.workerThreads.toNat = 3 := given s hs .workerThreads 3 (by simp [ms])
  obtain ⟨b, w⟩ := s
  obtain rfl : b = 128 := hbatch
  obtain rfl : w = 3 := UInt64.toNat_inj.1 hworkers
  exact hs

end CheckRounds.Settings
