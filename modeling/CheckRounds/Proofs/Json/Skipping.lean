import CheckRounds.Proofs.Json.Reading
/-!
Any well-formed value is read over, whatever its kind and depth.

One step lemma for each way in which the readers over values go on, and then an
induction over the text by its grammar. The remainder may keep the blanks behind a
value: they are read over together with what comes next.
-/

namespace CheckRounds.Json

/-! ## Steps -/

theorem afterWord?_append (word rest : List Char) :
    Skips (afterWord? word) (word ++ rest) rest := by
  induction word with
  | nil => exact ⟨Nat.le_refl _, by simp [afterWord?, Tail.whole]⟩
  | cons w word ih =>
    obtain ⟨h, hword⟩ := ih
    rw [List.cons_append]
    refine ⟨Nat.le_succ_of_le h, ?_⟩
    rw [afterWord?, if_pos rfl, hword]
    rfl

theorem skipValue?_atom {as cs rest : List Char} {c : Char} (has : Blanks as)
    (hblank : isBlank c = false) (harray : c ≠ '[') (hobject : c ≠ '\x7b')
    (hatom : Skips (skipAtom? c) cs rest) :
    Skips skipValue? (as ++ c :: cs) rest := by
  obtain ⟨h, hnext⟩ := next?_append has hblank cs
  obtain ⟨h', hatom⟩ := hatom
  refine ⟨Nat.lt_of_le_of_lt h' h, ?_⟩
  rw [skipValue?, hnext]
  simp only [if_neg harray, if_neg hobject, hatom]
  rfl

/-- A bracket that closes begins no value. -/
theorem skipElements?_of_next? {cs : List Char} {r : Rest cs}
    (h : next? cs = some (']', r)) :
    skipElements? cs = none := by
  have hvalue : skipValue? cs = none := by
    rw [skipValue?, h]
    simp [skipAtom?, startsNumeral, skipLiteral?]
  rw [skipElements?, hvalue]

theorem skipMembers?_of_next? {cs : List Char} {r : Rest cs}
    (h : next? cs = some ('\x7d', r)) :
    skipMembers? cs = none := by
  rw [skipMembers?, h]
  split <;> simp_all

theorem skipValue?_emptyArray {as bs : List Char} (has : Blanks as) (hbs : Blanks bs)
    (rest : List Char) :
    Skips skipValue? (as ++ '[' :: (bs ++ ']' :: rest)) rest := by
  obtain ⟨h, hopen⟩ :=
    next?_append has (by decide : isBlank '[' = false) (bs ++ ']' :: rest)
  obtain ⟨h', hclose⟩ := next?_append hbs (by decide : isBlank ']' = false) rest
  refine ⟨Nat.lt_trans h' h, ?_⟩
  rw [skipValue?, hopen]
  simp only [if_true, hclose]
  rfl

theorem skipValue?_array {as cs rest : List Char} (has : Blanks as)
    (hcs : Skips skipElements? cs rest) :
    Skips skipValue? (as ++ '[' :: cs) rest := by
  obtain ⟨h, hopen⟩ := next?_append has (by decide : isBlank '[' = false) cs
  obtain ⟨h', helements⟩ := hcs
  refine ⟨Nat.lt_trans h' h, ?_⟩
  rw [skipValue?, hopen]
  simp only [if_true]
  split
  · rename_i hclose
    rw [skipElements?_of_next? hclose] at helements
    contradiction
  · rw [helements]
    rfl

theorem skipValue?_emptyObject {as bs : List Char} (has : Blanks as) (hbs : Blanks bs)
    (rest : List Char) :
    Skips skipValue? (as ++ '\x7b' :: (bs ++ '\x7d' :: rest)) rest := by
  obtain ⟨h, hopen⟩ :=
    next?_append has (by decide : isBlank '\x7b' = false) (bs ++ '\x7d' :: rest)
  obtain ⟨h', hclose⟩ := next?_append hbs (by decide : isBlank '\x7d' = false) rest
  have hbracket : ('\x7b' : Char) ≠ '[' := by decide
  refine ⟨Nat.lt_trans h' h, ?_⟩
  rw [skipValue?, hopen]
  simp only [if_neg hbracket, if_true, hclose]
  rfl

theorem skipValue?_object {as cs rest : List Char} (has : Blanks as)
    (hcs : Skips skipMembers? cs rest) :
    Skips skipValue? (as ++ '\x7b' :: cs) rest := by
  obtain ⟨h, hopen⟩ := next?_append has (by decide : isBlank '\x7b' = false) cs
  obtain ⟨h', hmembers⟩ := hcs
  have hbracket : ('\x7b' : Char) ≠ '[' := by decide
  refine ⟨Nat.lt_trans h' h, ?_⟩
  rw [skipValue?, hopen]
  simp only [if_neg hbracket, if_true]
  split
  · rename_i hclose
    rw [skipMembers?_of_next? hclose] at hmembers
    contradiction
  · rw [hmembers]
    rfl

theorem skipElements?_last {cs bs rest : List Char}
    (hvalue : Skips skipValue? cs (bs ++ ']' :: rest)) (hbs : Blanks bs) :
    Skips skipElements? cs rest := by
  obtain ⟨h, hvalue⟩ := hvalue
  obtain ⟨h', hclose⟩ := next?_append hbs (by decide : isBlank ']' = false) rest
  refine ⟨Nat.lt_trans h' h, ?_⟩
  rw [skipElements?, hvalue]
  simp only [hclose]
  rfl

theorem skipElements?_more {cs bs ds rest : List Char}
    (hvalue : Skips skipValue? cs (bs ++ ',' :: ds)) (hbs : Blanks bs)
    (hds : Skips skipElements? ds rest) : Skips skipElements? cs rest := by
  obtain ⟨h, hvalue⟩ := hvalue
  obtain ⟨h', hcomma⟩ := next?_append hbs (by decide : isBlank ',' = false) ds
  obtain ⟨h'', helements⟩ := hds
  refine ⟨Nat.lt_trans h'' (Nat.lt_trans h' h), ?_⟩
  rw [skipElements?, hvalue]
  simp only [hcomma, helements]
  rfl

/-- A key, a colon and a value are read over one after the other. -/
def SkipsMember (cs rest : List Char) : Prop :=
  ∃ ks bs vs, Reads next? cs '"' ks ∧ Skips skipString? ks bs ∧ Reads next? bs ':' vs ∧
    Skips skipValue? vs rest

theorem skipMembers?_last {cs bs rest : List Char}
    (hmember : SkipsMember cs (bs ++ '\x7d' :: rest)) (hbs : Blanks bs) :
    Skips skipMembers? cs rest := by
  obtain ⟨ks, fs, vs, ⟨h₁, hquote⟩, ⟨h₂, hkey⟩, ⟨h₃, hcolon⟩, ⟨h₄, hvalue⟩⟩ := hmember
  obtain ⟨h₅, hclose⟩ := next?_append hbs (by decide : isBlank '\x7d' = false) rest
  refine ⟨by omega, ?_⟩
  rw [skipMembers?, hquote]
  simp only [hkey, hcolon, hvalue, hclose]
  rfl

theorem skipMembers?_more {cs bs ds rest : List Char}
    (hmember : SkipsMember cs (bs ++ ',' :: ds)) (hbs : Blanks bs)
    (hds : Skips skipMembers? ds rest) : Skips skipMembers? cs rest := by
  obtain ⟨ks, fs, vs, ⟨h₁, hquote⟩, ⟨h₂, hkey⟩, ⟨h₃, hcolon⟩, ⟨h₄, hvalue⟩⟩ := hmember
  obtain ⟨h₅, hcomma⟩ := next?_append hbs (by decide : isBlank ',' = false) ds
  obtain ⟨h₆, hmembers⟩ := hds
  refine ⟨by omega, ?_⟩
  rw [skipMembers?, hquote]
  simp only [hkey, hcolon, hvalue, hcomma, hmembers]
  rfl

/-! ## Values -/

theorem skipValue?_number {n : Numeral} {as cs rest : List Char} (has : Blanks as)
    (hn : n.Writes cs) (hrest : Delimits rest) :
    Skips skipValue? (as ++ (cs ++ rest)) rest := by
  have hnumeral := numeral?_append hn hrest
  obtain ⟨c, ds, rfl, hc⟩ := hn.exists_cons
  have hquote : c ≠ '"' := ne_of_startsNumeral hc (by decide)
  rw [List.cons_append] at hnumeral ⊢
  obtain ⟨h, hnumeral⟩ := hnumeral
  have hopens : (Value.number n).Opens c := hc
  refine skipValue?_atom has hopens.not_isBlank (ne_of_startsNumeral hc (by decide))
    (ne_of_startsNumeral hc (by decide)) ⟨Nat.le_of_lt_succ h, ?_⟩
  rw [skipAtom?, if_neg hquote, if_pos hc, hnumeral]
  rfl

theorem skipValue?_text {as cs s : List Char} (has : Blanks as) (hs : Spells cs s)
    (rest : List Char) :
    Skips skipValue? (as ++ '"' :: (cs ++ '"' :: rest)) rest := by
  obtain ⟨h, hstring⟩ := skipString?_append hs rest
  refine skipValue?_atom has (by decide) (by decide) (by decide) ⟨Nat.le_of_lt h, ?_⟩
  rw [skipAtom?, if_pos rfl, hstring]
  rfl

theorem skipValue?_literal {as : List Char} {c : Char} {word : List Char}
    (has : Blanks as) (hc : c ∈ ['n', 't', 'f'])
    (hword : ∀ cs, skipAtom? c cs = afterWord? word cs) (rest : List Char) :
    Skips skipValue? (as ++ c :: (word ++ rest)) rest := by
  have hother : isBlank c = false ∧ c ≠ '[' ∧ c ≠ '\x7b' := by
    simp only [List.mem_cons, List.not_mem_nil, or_false] at hc
    rcases hc with rfl | rfl | rfl <;> decide
  obtain ⟨h, hafter⟩ := afterWord?_append word rest
  exact skipValue?_atom has hother.1 hother.2.1 hother.2.2 ⟨h, by rw [hword, hafter]⟩

/-- What it means for the readers over values to get past the text of a part. -/
def Part.IsSkipped : Part → List Char → Prop
  | .bare _, cs => ∀ as rest, Blanks as → Delimits rest →
      Skips skipValue? (as ++ (cs ++ rest)) rest
  | .value _, cs =>
    ∀ rest, Delimits rest → ∃ bs, Blanks bs ∧ Skips skipValue? (cs ++ rest) (bs ++ rest)
  | .items _, cs => ∀ rest, Skips skipElements? (cs ++ ']' :: rest) rest
  | .member _ _, cs =>
    ∀ rest, Delimits rest → ∃ bs, Blanks bs ∧ SkipsMember (cs ++ rest) (bs ++ rest)
  | .members _, cs => ∀ rest, Skips skipMembers? (cs ++ '\x7d' :: rest) rest

theorem Writes.isSkipped {part : Part} {cs : List Char} (h : Writes part cs) :
    part.IsSkipped cs := by
  induction h with
  | null => exact fun as rest has _ =>
    skipValue?_literal has (by decide) (fun _ => rfl) rest
  | yes => exact fun as rest has _ =>
    skipValue?_literal has (by decide) (fun _ => rfl) rest
  | no => exact fun as rest has _ =>
    skipValue?_literal has (by decide) (fun _ => rfl) rest
  | number hn => exact fun as rest has hrest => skipValue?_number has hn hrest
  | text hs =>
    intro as rest has _
    simpa using skipValue?_text has hs rest
  | emptyArray hbs =>
    intro as rest has _
    simpa using skipValue?_emptyArray has hbs rest
  | array _ ih =>
    intro as rest has _
    simpa using skipValue?_array has (ih rest)
  | emptyObject hbs =>
    intro as rest has _
    simpa using skipValue?_emptyObject has hbs rest
  | object _ ih =>
    intro as rest has _
    simpa using skipValue?_object has (ih rest)
  | value has _ hbs ih =>
    intro rest hrest
    refine ⟨_, hbs, ?_⟩
    rw [List.append_assoc, List.append_assoc]
    exact ih _ _ has (hrest.blanks hbs)
  | lastItem _ ih =>
    intro rest
    obtain ⟨bs, hbs, hvalue⟩ :=
      ih (']' :: rest) (.of_not_isDigit (by decide) (by decide) (by decide) _)
    exact skipElements?_last hvalue hbs
  | @item v vs cs ds _ _ ihv ihvs =>
    intro rest
    obtain ⟨bs, hbs, hvalue⟩ := ihv (',' :: (ds ++ ']' :: rest))
      (.of_not_isDigit (by decide) (by decide) (by decide) _)
    rw [List.append_assoc, List.cons_append]
    exact skipElements?_more hvalue hbs (ihvs rest)
  | @member key v as ks bs cs has hkey hbs _ ih =>
    intro rest hrest
    obtain ⟨ws, hws, hvalue⟩ := ih rest hrest
    refine ⟨ws, hws, ks ++ '"' :: (bs ++ ':' :: (cs ++ rest)), bs ++ ':' :: (cs ++ rest),
      cs ++ rest, ?_, skipString?_append hkey _, next?_append hbs (by decide) _, hvalue⟩
    simpa using next?_append has (by decide : isBlank '"' = false) _
  | lastMember _ ih =>
    intro rest
    obtain ⟨bs, hbs, hmember⟩ := ih ('\x7d' :: rest)
      (.of_not_isDigit (by decide) (by decide) (by decide) _)
    exact skipMembers?_last hmember hbs
  | @members key v ms cs ds _ _ ihm ihms =>
    intro rest
    obtain ⟨bs, hbs, hmember⟩ := ihm (',' :: (ds ++ '\x7d' :: rest))
      (.of_not_isDigit (by decide) (by decide) (by decide) _)
    rw [List.append_assoc, List.cons_append]
    exact skipMembers?_more hmember hbs (ihms rest)

end CheckRounds.Json
