import CheckRounds.Proofs.Settings.Reading
/-!
Settings survive being written and read.

`render` writes one text for each settings, and `parse` reads them back from it. The
text is whole: cut short it is no settings, and behind it only blanks may stand. So the
texts that `render` writes are the ones that reading and writing leave as they are.
-/

namespace CheckRounds.Settings

open Json
open Text (Digits)

variable {s : Settings} {fs : Fields} {field : Field} {cs ds rest t : List Char}

/-! ## The text of settings -/

/-- A key in its quotes, a colon and a number. -/
def memberText (field : Field) (n : UInt64) : List Char :=
  '"' :: (field.key ++ '"' :: ':' :: Nat.toDigits 10 n.toNat)

/-- All that stands behind the opening brace. -/
def bodyText (s : Settings) : List Char :=
  memberText .batchSize s.batchSize ++ ',' ::
    (memberText .workerThreads s.workerThreads ++ ['\x7d'])

theorem render_eq (s : Settings) : s.render = '\x7b' :: s.bodyText := by
  simp [render, bodyText, memberText]

theorem writes_memberText (field : Field) (n : UInt64) :
    Writes (.member field.key (.ofNat n.toNat)) (memberText field n) := by
  have hvalue : Writes (.value (.ofNat n.toNat)) _ := .value .nil (.ofNat n.toNat) .nil
  simpa [memberText] using Writes.member .nil field.spells_key .nil hvalue

/-- What the text of settings says. -/
def toValue (s : Settings) : Value :=
  .object [(Field.batchSize.key, .ofNat s.batchSize.toNat),
    (Field.workerThreads.key, .ofNat s.workerThreads.toNat)]

theorem writes_render (s : Settings) : Writes (.bare s.toValue) s.render := by
  rw [render_eq]
  simpa [toValue, bodyText]
    using Writes.object (.members (writes_memberText .batchSize s.batchSize)
    (.lastMember (writes_memberText .workerThreads s.workerThreads)))

theorem size?_ofNat (n : UInt64) : (Value.ofNat n.toNat).size? = some n :=
  (size?_eq_some_iff (.value .nil (.ofNat n.toNat) .nil)).2 rfl

theorem fields?_toValue (s : Settings) :
    s.toValue.fields? = some ⟨some s.batchSize, some s.workerThreads⟩ := by
  simp [toValue, Value.fields?, Fields.noteAll?, Fields.note?, Field.ofKey?_key,
    size?_ofNat, Fields.get?, Fields.set]

theorem parse_render_append (s : Settings) (ext : List Char) :
    (parse (s.render ++ ext)).toOption = if (next? ext).isNone then some s else none := by
  have hread := readSettings_append .nil (writes_render s) ext
  rw [List.nil_append] at hread
  rw [parse_of_readSettings hread, fields?_toValue]
  rfl

/-! ## Texts that are cut short -/

/-- A beginning of `cs ++ ds` ends within `cs` or goes on behind it. -/
theorem prefix_append_cases (h : t <+: cs ++ ds) :
    t <+: cs ∨ ∃ u, t = cs ++ u ∧ u <+: ds := by
  rcases List.prefix_or_prefix_of_prefix h (List.prefix_append cs ds) with h' | ⟨u, rfl⟩
  · exact .inl h'
  · exact .inr ⟨u, rfl, (List.prefix_append_right_inj cs).1 h⟩

/-- A string without a quote at its end is no string. -/
theorem string?_eq_none (hcs : ∀ c ∈ cs, isPlain c = true) : string? cs = none := by
  induction cs with
  | nil => simp [string?]
  | cons c cs ih =>
    have hc : isPlain c = true := hcs c (by simp)
    obtain ⟨hquote, hbackslash, -⟩ := isPlain_iff.1 hc
    obtain ⟨h, hunit⟩ := stringUnit?_plain hbackslash hc cs
    rw [string?, if_neg hquote, hunit]
    simp only [ih fun d hd => hcs d (by simp [hd])]

theorem readMembers_nil : (readMembers fs []).toOption = none := by
  rw [readMembers]
  rfl

/-- Members are not over behind a value. -/
theorem readMembers_open {key ks : List Char} {expected : Option Fields}
    (hkey : ReadsKey cs key ks) (hmember : Gives (readMember fs key) ks expected []) :
    (readMembers fs cs).toOption = none := by
  obtain ⟨ds, ⟨_, hquote⟩, _, hstring⟩ := hkey
  rw [readMembers, hquote]
  cases expected with
  | none =>
    obtain ⟨e, hmember⟩ := hmember
    simp only [hstring, hmember]
    rfl
  | some gs =>
    obtain ⟨bs, _, hbs, hmember⟩ := hmember
    have hend : next? (bs ++ []) = none := next?_eq_none_iff.2 (by simpa using hbs)
    simp only [hstring, hmember, hend]
    rfl

theorem readMember_key (fs : Fields) (field : Field) (cs : List Char) :
    readMember fs field.key cs = readField fs field cs := by
  simp only [readMember, Field.ofKey?_key]

theorem readField_missing (h : t = [] ∨ t = [':']) :
    ∃ e, readField fs field t = .error e := by
  unfold readField
  split
  · exact ⟨_, rfl⟩
  · rcases h with rfl | rfl
    · exact ⟨.malformed, by simp [next?]⟩
    · exact ⟨.malformed, by simp [next?, isBlank, readSize, Rest.one]⟩

/-- What is left of a member behind its key, if it is cut short, has no number or a
shorter one; either way nothing is behind it. -/
theorem exists_gives_readMember (n : UInt64) (h : t <+: ':' :: Nat.toDigits 10 n.toNat) :
    ∃ expected, Gives (readMember fs field.key) t expected [] := by
  have hmissing (ht : t = [] ∨ t = [':']) : ∃ expected,
      Gives (readMember fs field.key) t expected [] := by
    obtain ⟨e, hread⟩ := readField_missing ht
    exact ⟨none, e, by rw [readMember_key, hread]⟩
  rcases List.prefix_cons_iff.1 h with rfl | ⟨ds, rfl, hds⟩
  · exact hmissing (.inl rfl)
  · by_cases hnil : ds = []
    · exact hmissing (.inr (by rw [hnil]))
    · have hwhole : Whole ds := (whole_toDigits n.toNat).beginning hds hnil
      have hvalue : Writes (.value (.number { whole := ds })) ([] ++ ds ++ []) :=
        .value .nil (.whole hwhole) .nil
      refine ⟨fs.note? field.key (.number { whole := ds }), ?_⟩
      simpa using readMember_append .nil hvalue .nil

/-- A member that is cut short, with nothing behind it, is no member. -/
theorem readMembers_cut (n : UInt64) (h : t <+: memberText field n) :
    (readMembers fs t).toOption = none := by
  rcases List.prefix_cons_iff.1 h with rfl | ⟨p, rfl, hp⟩
  · exact readMembers_nil
  have hplain := List.all_eq_true.1 field.all_isPlain_key
  have hunclosed (hkey : p <+: field.key) :
      (readMembers fs ('"' :: p)).toOption = none := by
    rw [readMembers, next?_cons_of_not_isBlank (by decide)]
    simp only [Rest.one, string?_eq_none fun c hc => hplain c (hkey.subset hc)]
    rfl
  rcases prefix_append_cases hp with hkey | ⟨q, rfl, hq⟩
  · exact hunclosed hkey
  rcases List.prefix_cons_iff.1 hq with rfl | ⟨r, rfl, hr⟩
  · exact hunclosed (by simp)
  · obtain ⟨expected, hmember⟩ := exists_gives_readMember n hr
    have hkey : ReadsKey ('"' :: (field.key ++ '"' :: r)) field.key r :=
      ⟨_, next?_append .nil (by decide) _, string?_append field.spells_key r⟩
    exact readMembers_open hkey hmember

theorem readMembers_bodyText_cut (h : t <+: s.bodyText) (hne : t ≠ s.bodyText) :
    (readMembers fs t).toOption = none := by
  rcases prefix_append_cases h with hfirst | ⟨u', rfl, hu'⟩
  · exact readMembers_cut _ hfirst
  rcases List.prefix_cons_iff.1 hu' with rfl | ⟨u, rfl, hu⟩
  · have hall : memberText .batchSize s.batchSize ++ [] <+:
     memberText .batchSize s.batchSize := by simp
    exact readMembers_cut _ hall
  rw [readMembers_member_more (writes_memberText _ _)]
  have hsecond : u <+: memberText .workerThreads s.workerThreads := by
    rcases prefix_append_cases hu with hsecond | ⟨w', rfl, hw'⟩
    · exact hsecond
    rcases List.prefix_cons_iff.1 hw' with rfl | ⟨w, rfl, hw⟩
    · simp
    · rw [List.prefix_nil.1 hw] at hne
      exact absurd rfl hne
  cases fs.note? Field.batchSize.key (.ofNat s.batchSize.toNat) with
  | none => rfl
  | some gs => exact readMembers_cut _ hsecond

theorem readObject_bodyText_cut (h : t <+: s.bodyText) (hne : t ≠ s.bodyText) :
    (readObject t).toOption = none := by
  have hmembers : (readMembers {} t).toOption = none := readMembers_bodyText_cut h hne
  rcases List.prefix_cons_iff.1 h with rfl | ⟨p, rfl, -⟩
  · exact hmembers
  · rw [readObject, next?_cons_of_not_isBlank (by decide)]
    exact hmembers

theorem parse_cut (h : t <+: s.render) (hne : t ≠ s.render) :
    (parse t).toOption = none := by
  rw [render_eq] at h hne
  have hread : (readSettings t).toOption = (none : Option Fields).map fun gs =>
    (gs, []) := by
    rcases List.prefix_cons_iff.1 h with rfl | ⟨u, rfl, hu⟩
    · rfl
    · rw [← List.nil_append ('\x7b' :: u), readSettings_object .nil]
      exact readObject_bodyText_cut hu fun hbody => hne (by rw [hbody])
  simpa using parse_of_readSettings hread

/-! ## The canonical text -/

/-- The text that `render` writes stands for these settings, and neither less of it nor
more. -/
structure Canonical (s : Settings) : Prop where
  read_back : parse s.render = .ok s
  cut_short : ∀ t, t <+: s.render → t ≠ s.render → ∃ e, parse t = .error e
  goes_on : ∀ ext, ¬ Blanks ext → ∃ e, parse (s.render ++ ext) = .error e
  padded : ∀ ext, Blanks ext → parse (s.render ++ ext) = .ok s

theorem canonical (s : Settings) : Canonical s where
  read_back := by
    have hread := parse_render_append s []
    rw [List.append_nil] at hread
    exact toOption_eq_some_iff.1 hread
  cut_short := fun _ h hne => toOption_eq_none_iff.1 (parse_cut h hne)
  goes_on := by
    intro ext hext
    have hnext : (next? ext).isNone = false := by
      rw [← next?_eq_none_iff] at hext
      simpa [Option.isSome_iff_ne_none] using hext
    exact toOption_eq_none_iff.1
      (by rw [parse_render_append, hnext, if_neg Bool.false_ne_true])
  padded := by
    intro ext hext
    exact toOption_eq_some_iff.1
      (by rw [parse_render_append, next?_eq_none_iff.2 hext, if_pos Option.isNone_none])

/-- Reading and writing are inverse to each other between settings and the texts that
`render` writes, and reading any other text and writing what was read leads to such a
text. -/
theorem render_canonical :
    (∀ s : Settings, Canonical s) ∧
    (∀ text s, parse text = .ok s → parse s.render = .ok s) ∧
    (∀ text, (∃ s : Settings, text = s.render) ↔ (parse text).map render = .ok text) := by
  refine ⟨canonical, fun _ s _ => (canonical s).read_back, fun text => ⟨?_, fun h => ?_⟩⟩
  · rintro ⟨s, rfl⟩
    rw [(canonical s).read_back]
    rfl
  · cases hparse : parse text with
    | error e =>
      rw [hparse] at h
      cases h
    | ok s =>
      rw [hparse] at h
      exact ⟨s, (Except.ok.inj h).symm⟩

/-- The greatest words of all are read back, but not without the closing brace. -/
theorem greatest_words_read_back :
    parse (render ⟨18446744073709551615, 18446744073709551615⟩) =
        .ok ⟨18446744073709551615, 18446744073709551615⟩ ∧
      ∃ e,
        parse (render ⟨18446744073709551615, 18446744073709551615⟩).dropLast = .error e :=
  have h := render_canonical.1 ⟨18446744073709551615, 18446744073709551615⟩
  ⟨h.read_back, h.cut_short _ (List.dropLast_prefix _) (by decide)⟩

end CheckRounds.Settings
