import CheckRounds.Text.Numeral
/-!
Runs of ASCII digits and the numbers they denote.

`Nat.toDigits 10` writes a number in the one way that has no needless zero in front
(`toDigits_ofDigitChars`); readers of digits get the number back.
-/

namespace CheckRounds.Text

/-- One digit or more, and nothing else. -/
structure Digits (ds : List Char) : Prop where
  ne_nil : ds ≠ []
  isDigit : ∀ c ∈ ds, c.isDigit = true

theorem digitsValue_eq (v : Nat) (ds : List Char) :
    digitsValue v ds = Nat.ofDigitChars 10 ds v := rfl

theorem natural?_eq_some_iff {cs : List Char} {n : Nat} :
    natural? cs = some n ↔ Digits cs ∧ Nat.ofDigitChars 10 cs 0 = n := by
  unfold natural?
  split
  · rename_i h
    have hcs : Digits cs := ⟨h.1, List.all_eq_true.1 h.2⟩
    simp [digitsValue_eq, hcs]
  · rename_i h
    have hcs : ¬ Digits cs := fun hcs => h ⟨hcs.ne_nil, List.all_eq_true.2 hcs.isDigit⟩
    simp [hcs]

/-! ## The digits of a number -/

theorem digits_toDigits (n : Nat) : Digits (Nat.toDigits 10 n) :=
  ⟨Nat.toDigits_ne_nil, fun _ hc =>
    Nat.isDigit_of_mem_toDigits (by decide) (by decide) hc⟩

theorem digitValue_lt {c : Char} (hc : c.isDigit = true) : digitValue c < 10 := by
  simp only [Char.isDigit, Bool.and_eq_true, decide_eq_true_eq] at hc
  have hhigh : c.toNat ≤ 57 := hc.2
  simp only [digitValue, Char.reduceToNat]
  omega

theorem digitChar_digitValue {c : Char} (hc : c.isDigit = true) :
    Nat.digitChar (digitValue c) = c := by
  apply Char.toNat_inj.1
  rw [Nat.toNat_digitChar_of_lt_ten (digitValue_lt hc)]
  simp only [Char.isDigit, Bool.and_eq_true, decide_eq_true_eq] at hc
  have hlow : 48 ≤ c.toNat := hc.1
  simp only [digitValue, Char.reduceToNat]
  omega

theorem toDigits_digitValue {c : Char} (hc : c.isDigit = true) :
    Nat.toDigits 10 (digitValue c) = [c] := by
  rw [Nat.toDigits_of_lt_base (digitValue_lt hc), digitChar_digitValue hc]

/-- Digits behind the digits of a positive number go on with it. -/
theorem toDigits_append {v : Nat} (hv : 0 < v) {ds : List Char}
    (hds : ∀ c ∈ ds, c.isDigit = true) :
    Nat.toDigits 10 v ++ ds = Nat.toDigits 10 (Nat.ofDigitChars 10 ds v) := by
  induction ds generalizing v with
  | nil => simp
  | cons c ds ih =>
    have hc : c.isDigit = true := hds c (by simp)
    have hnext : Nat.toDigits 10 v ++ [c] = Nat.toDigits 10 (10 * v + digitValue c) := by
      rw [← toDigits_digitValue hc]
      exact Nat.toDigits_append_toDigits (by decide) hv (digitValue_lt hc)
    rw [Nat.ofDigitChars_cons]
    calc Nat.toDigits 10 v ++ c :: ds
        = (Nat.toDigits 10 v ++ [c]) ++ ds := by simp
      _ = Nat.toDigits 10 (10 * v + digitValue c) ++ ds := by rw [hnext]
      _ = Nat.toDigits 10 (Nat.ofDigitChars 10 ds (10 * v + digitValue c)) :=
        ih (by omega) fun d hd => hds d (by simp [hd])

/-- Digits without a needless zero in front are those of the number that they denote. -/
theorem toDigits_ofDigitChars {ds : List Char} (hds : Digits ds)
    (hzero : ds.head? = some '0' → ds = ['0']) :
    Nat.toDigits 10 (Nat.ofDigitChars 10 ds 0) = ds := by
  cases ds with
  | nil => exact absurd rfl hds.ne_nil
  | cons c ds =>
    have hc : c.isDigit = true := hds.isDigit c (by simp)
    by_cases h0 : c = '0'
    · rw [hzero (by simp [h0])]
      decide
    · have hpos : 0 < digitValue c := by
        refine Nat.pos_of_ne_zero fun hv => h0 ?_
        rw [← digitChar_digitValue hc, hv]
        rfl
      have hall := toDigits_append hpos fun d hd =>
        hds.isDigit d (List.mem_cons_of_mem c hd)
      rw [toDigits_digitValue hc] at hall
      rw [Nat.ofDigitChars_cons, Nat.mul_zero, Nat.zero_add]
      exact hall.symm

/-- The digits of a number have no needless zero in front. -/
theorem toDigits_eq_of_head? {n : Nat} (h : (Nat.toDigits 10 n).head? = some '0') :
    Nat.toDigits 10 n = ['0'] := by
  induction n using Nat.strongRecOn with
  | ind n ih =>
    by_cases hn : n < 10
    · rw [Nat.toDigits_of_lt_base hn] at h ⊢
      simpa using h
    · have hsplit := Nat.toDigits_of_base_le (b := 10) (by decide) (Nat.le_of_not_lt hn)
      have hhead : (Nat.toDigits 10 (n / 10)).head? = some '0' := by
        obtain ⟨c, cs, hcs⟩ :=
          List.exists_cons_of_ne_nil (Nat.toDigits_ne_nil (n := n / 10) (b := 10))
        rw [hsplit, hcs] at h
        rw [hcs]
        exact h
      have hzero : Nat.ofDigitChars 10 (Nat.toDigits 10 (n / 10)) 0 = 0 := by
        rw [ih (n / 10) (by omega) hhead]
        rfl
      rw [Nat.ofDigitChars_ten_toDigits] at hzero
      omega

end CheckRounds.Text
