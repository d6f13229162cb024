import CheckRounds.Proofs.Parallelism
import CheckRounds.Proofs.Text.Decimal
import CheckRounds.Pool.Configured
import CheckRounds.Settings.Environment
import Mathlib.Data.List.DropRight
/-!
Which values of the two variables count, and what they come to.

A variable counts exactly if its bytes are the UTF-8 of an integer between blanks,
written in ASCII digits with at most one sign, and the integer fits the word it is for
(`Environment.read?_uint64`, `Environment.read?_int32`). Each variable decides about its
own setting alone, and whatever they hold, a pool can be made with these settings.
-/

namespace CheckRounds

namespace Text

/-- The text is a run of digits with at most one sign in front, and denotes this
integer. Where there are no negative numbers, a minus is no sign. -/
inductive Denotes (signed : Bool) : List Char → Int → Prop where
  | digits {ds} (run : Digits ds) : Denotes signed ds (Nat.ofDigitChars 10 ds 0)
  | plus {ds} (run : Digits ds) : Denotes signed ('+' :: ds) (Nat.ofDigitChars 10 ds 0)
  | minus {ds} (sign : signed = true) (run : Digits ds) :
      Denotes signed ('-' :: ds) (-(Nat.ofDigitChars 10 ds 0 : Int))

theorem Digits.not_sign {c : Char} {cs : List Char} (h : Digits (c :: cs)) :
    c ≠ '+' ∧ c ≠ '-' := by
  have hc : c.isDigit = true := h.isDigit c (by simp)
  constructor <;> rintro rfl <;> exact absurd hc (by decide)

theorem unsigned?_eq_some_iff {cs : List Char} {n : Nat} :
    unsigned? cs = some n ↔ Denotes false cs n := by
  constructor
  · intro h
    unfold unsigned? at h
    split at h <;> obtain ⟨hds, rfl⟩ := natural?_eq_some_iff.1 h
    · exact .plus hds
    · exact .digits hds
  · generalize hm : (n : Int) = m
    intro h
    cases h with
    | digits run =>
      obtain rfl := Int.ofNat_inj.1 hm
      unfold unsigned?
      split
      · exact absurd rfl run.not_sign.1
      · exact natural?_eq_some_iff.2 ⟨run, rfl⟩
    | plus run =>
      obtain rfl := Int.ofNat_inj.1 hm
      exact natural?_eq_some_iff.2 ⟨run, rfl⟩
    | minus sign => cases sign

theorem Denotes.with_sign {cs : List Char} {n : Int} (h : Denotes false cs n) :
    Denotes true cs n := by
  cases h with
  | digits run => exact .digits run
  | plus run => exact .plus run
  | minus sign => cases sign

theorem integer?_eq_some_iff {cs : List Char} {n : Int} :
    integer? cs = some n ↔ Denotes true cs n := by
  constructor
  · intro h
    unfold integer? at h
    split at h
    · rename_i ds
      cases hm : natural? ds with
      | none => simp [hm] at h
      | some m =>
        obtain rfl : -(m : Int) = n := by simpa [hm] using h
        obtain ⟨run, rfl⟩ := natural?_eq_some_iff.1 hm
        exact .minus rfl run
    · cases hm : unsigned? cs with
      | none => simp [hm] at h
      | some m =>
        obtain rfl : (m : Int) = n := by simpa [hm] using h
        exact (unsigned?_eq_some_iff.1 hm).with_sign
  · intro h
    cases h with
    | digits run =>
      have hread := unsigned?_eq_some_iff.2 (.digits run)
      unfold integer?
      split
      · exact absurd rfl run.not_sign.2
      · simp [hread]
    | plus run =>
      have hread := unsigned?_eq_some_iff.2 (.plus run)
      simp [integer?, hread]
    | minus _ run =>
      have hread := natural?_eq_some_iff.2 ⟨run, rfl⟩
      simp [integer?, hread]

theorem readUInt64?_eq_some_iff {cs : List Char} {n : UInt64} :
    readUInt64? cs = some n ↔ Denotes false cs n.toNat := by
  unfold readUInt64?
  constructor
  · intro h
    split at h
    · rename_i m hm
      split at h
      · rename_i hlt
        obtain rfl := Option.some.inj h
        rw [UInt64.toNat_ofNat_of_lt' hlt]
        exact unsigned?_eq_some_iff.1 hm
      · cases h
    · cases h
  · intro h
    rw [unsigned?_eq_some_iff.2 h]
    simp [wordSize, n.toNat_lt]

theorem readInt32?_eq_some_iff {cs : List Char} {n : Int32} :
    readInt32? cs = some n ↔ Denotes true cs n.toInt := by
  unfold readInt32?
  constructor
  · intro h
    split at h
    · rename_i m hm
      split at h
      · rename_i hrange
        obtain rfl := Option.some.inj h
        rw [Int32.toInt_ofInt_of_le hrange.1 hrange.2]
        exact integer?_eq_some_iff.1 hm
      · cases h
    · cases h
  · intro h
    have hlow : -signedBound ≤ n.toInt := n.le_toInt
    have hhigh : n.toInt < signedBound := n.toInt_lt
    rw [integer?_eq_some_iff.2 h]
    simp [hlow, hhigh]

/-! ## Blanks around a text -/

/-- What is trimmed off are blanks. -/
theorem exists_blanks_trim (cs : List Char) :
    ∃ before after, cs = before ++ trim cs ++ after ∧
    (∀ c ∈ before, isBlank c = true) ∧ ∀ c ∈ after, isBlank c = true := by
  have hlast :=
    List.rdropWhile_append_rtakeWhile (p := isBlank) (l := cs.dropWhile isBlank)
  refine ⟨cs.takeWhile isBlank, (cs.dropWhile isBlank).rtakeWhile isBlank, ?_, ?_, ?_⟩
  · rw [List.append_assoc]
    change cs = _ ++ ((cs.dropWhile isBlank).rdropWhile isBlank ++ _)
    rw [hlast, List.takeWhile_append_dropWhile]
  · intro c hc
    exact List.mem_takeWhile_imp hc
  · intro c hc
    exact List.mem_rtakeWhile_imp hc

/-- Blanks around a text without blanks are trimmed off. -/
theorem trim_eq {before text after : List Char} (hbefore : ∀ c ∈ before, isBlank c = true)
    (hafter : ∀ c ∈ after, isBlank c = true) (htext : ∀ c ∈ text, isBlank c = false) :
    trim (before ++ text ++ after) = text := by
  have hstay : ∀ {cs : List Char} (ds : List Char), (∀ c ∈ cs, isBlank c = false) →
      cs ≠ [] → (cs ++ ds).dropWhile isBlank = cs ++ ds := by
    intro cs ds hcs hne
    obtain ⟨c, cs, rfl⟩ := List.exists_cons_of_ne_nil hne
    rw [List.cons_append, List.dropWhile_cons_of_neg (by simp [hcs c (by simp)])]
  unfold trim
  rw [List.append_assoc, List.dropWhile_append_of_pos hbefore]
  by_cases hne : text = []
  · have hnone := List.dropWhile_eq_nil_iff.2 hafter
    simp [hne, hnone]
  · have hreverse : ∀ c ∈ text.reverse, isBlank c = false := by simpa using htext
    have hblanks : ∀ c ∈ after.reverse, isBlank c = true := by simpa using hafter
    have hrest := hstay [] hreverse (by simpa using hne)
    rw [List.append_nil] at hrest
    rw [hstay after htext hne, List.reverse_append,
      List.dropWhile_append_of_pos hblanks, hrest, List.reverse_reverse]

theorem Denotes.not_blank {signed : Bool} {text : List Char} {n : Int}
    (h : Denotes signed text n) :
    ∀ c ∈ text, isBlank c = false := by
  have hdigit : ∀ {ds : List Char}, Digits ds → ∀ c ∈ ds, isBlank c = false := by
    intro ds run c hc
    have hd : c.isDigit = true := run.isDigit c hc
    simp only [Char.isDigit, Bool.and_eq_true, decide_eq_true_eq] at hd
    have hlow : 48 ≤ c.toNat := hd.1
    have hhigh : c.toNat ≤ 57 := hd.2
    simp only [isBlank, Bool.or_eq_false_iff, Bool.and_eq_false_iff,
      decide_eq_false_iff_not, beq_eq_false_iff_ne]
    omega
  cases h with
  | digits run => exact hdigit run
  | plus run => exact List.forall_mem_cons.2 ⟨by decide, hdigit run⟩
  | minus _ run => exact List.forall_mem_cons.2 ⟨by decide, hdigit run⟩

end Text

/-! ## The variables -/

namespace Environment

/-- The variable holds this integer: its bytes are the UTF-8 of a numeral between
blanks. -/
def Holds (signed : Bool) (value : Option ByteArray) (n : Int) : Prop :=
  ∃ before text after : List Char,
    value = some (String.ofList (before ++ text ++ after)).toUTF8 ∧
    (∀ c ∈ before, Text.isBlank c = true) ∧ (∀ c ∈ after, Text.isBlank c = true) ∧
    Text.Denotes signed text n

theorem characters?_eq_some_iff {value : Option ByteArray} {text : List Char} :
    characters? value = some text ↔
      ∃ cs : List Char, value = some (String.ofList cs).toUTF8 ∧ Text.trim cs = text := by
  unfold characters?
  constructor
  · intro h
    split at h
    · cases h
    · rename_i bytes
      split at h
      · cases h
      · rename_i s hs
        unfold String.fromUTF8? at hs
        split at hs
        · obtain rfl := Option.some.inj hs
          exact ⟨_, by rw [String.ofList_toList]; rfl, Option.some.inj h⟩
        · cases hs
  · rintro ⟨cs, rfl, rfl⟩
    have hdecode : String.fromUTF8? (String.ofList cs).toUTF8 = some (String.ofList cs) :=
      dif_pos (String.ofList cs).isValidUTF8
    simp only [hdecode, String.toList_ofList]

/-- A reader that reads numerals reads just the variables that hold them. -/
theorem read?_eq_some_iff {α : Type} {reader : List Char → Option α} {signed : Bool}
    {a : α} {n : Int} (hreader : ∀ cs, reader cs = some a ↔ Text.Denotes signed cs n)
    {value : Option ByteArray} :
    read? reader value = some a ↔ Holds signed value n := by
  unfold read?
  rw [Option.bind_eq_some_iff]
  constructor
  · rintro ⟨text, htext, hread⟩
    obtain ⟨cs, rfl, rfl⟩ := characters?_eq_some_iff.1 htext
    obtain ⟨before, after, hcs, hbefore, hafter⟩ := Text.exists_blanks_trim cs
    exact ⟨before, Text.trim cs, after, by rw [← hcs], hbefore, hafter,
      (hreader _).1 hread⟩
  · rintro ⟨before, text, after, rfl, hbefore, hafter, htext⟩
    exact ⟨text,
      characters?_eq_some_iff.2 ⟨_, rfl, Text.trim_eq hbefore hafter htext.not_blank⟩,
      (hreader _).2 htext⟩

theorem read?_uint64 {value : Option ByteArray} {n : UInt64} :
    read? Text.readUInt64? value = some n ↔ Holds false value n.toNat :=
  read?_eq_some_iff fun _ => Text.readUInt64?_eq_some_iff

theorem read?_int32 {value : Option ByteArray} {n : Int32} :
    read? Text.readInt32? value = some n ↔ Holds true value n.toInt :=
  read?_eq_some_iff fun _ => Text.readInt32?_eq_some_iff

end Environment

/-! ## The settings -/

namespace Settings

theorem batchSize_ofEnvironment (env : Environment) (cores : UInt64) :
    (ofEnvironment env cores).batchSize =
      max ((Environment.read? Text.readUInt64? env.batchSize).getD 128) 1 := rfl

theorem workerThreads_ofEnvironment (env : Environment) (cores : UInt64) :
    (ofEnvironment env cores).workerThreads =
      dedicatedWorkers ((Environment.read? Text.readInt32? env.parallelism).getD 0)
        cores := by
  simp only [ofEnvironment, workerThreads_withBatchSize, ofParallelism,
    defaultParallelism]

theorem validate_ofEnvironment (env : Environment) (cores : UInt64) :
    (ofEnvironment env cores).validate = .ok () :=
  validate_eq_ok_iff.2 (dedicatedWorkers_le _ cores)

/-- Each variable counts exactly if it holds a number that fits, and then by this
number; else its default stands. Nothing that one variable holds changes what the other
one comes to, and the settings are never refused where a pool is made with them. -/
theorem ofEnvironment_exact (env : Environment) (cores : UInt64) :
    (∀ n : UInt64, Environment.Holds false env.batchSize n.toNat →
      (ofEnvironment env cores).batchSize.toNat = max 1 n.toNat) ∧
    ((∀ n : UInt64, ¬ Environment.Holds false env.batchSize n.toNat) →
      (ofEnvironment env cores).batchSize = 128) ∧
    (∀ p : Int32, Environment.Holds true env.parallelism p.toInt →
      (ofEnvironment env cores).workerThreads = dedicatedWorkers p cores) ∧
    ((∀ p : Int32, ¬ Environment.Holds true env.parallelism p.toInt) →
      (ofEnvironment env cores).workerThreads = dedicatedWorkers 0 cores) ∧
    (ofEnvironment env cores).validate = .ok () ∧
    ∀ J : Type,
      (Pool.ofSettings (ofEnvironment env cores) : Except PoolError (Pool J × Request)) =
      .ok (.new (ofEnvironment env cores).batchSize.toNat,
        .start (ofEnvironment env cores).workerThreads.toNat) := by
  refine ⟨fun n hn => ?_, fun hnone => ?_, fun p hp => ?_, fun hnone => ?_,
    validate_ofEnvironment env cores, fun J => ?_⟩
  · rw [batchSize_ofEnvironment, Environment.read?_uint64.2 hn, Option.getD_some,
     UInt64.toNat_max]
    exact Nat.max_comm n.toNat 1
  · have hread : Environment.read? Text.readUInt64? env.batchSize = none :=
      Option.eq_none_iff_forall_ne_some.2 fun n hn =>
        hnone n (Environment.read?_uint64.1 hn)
    rw [batchSize_ofEnvironment, hread]
    rfl
  · rw [workerThreads_ofEnvironment, Environment.read?_int32.2 hp, Option.getD_some]
  · have hread : Environment.read? Text.readInt32? env.parallelism = none :=
      Option.eq_none_iff_forall_ne_some.2 fun p hp =>
        hnone p (Environment.read?_int32.1 hp)
    rw [workerThreads_ofEnvironment, hread, Option.getD_none]
  · rw [Pool.ofSettings, validate_ofEnvironment]

/-- Three cores are to stay free, and a batch of no jobs is asked for; blanks, signs and
leading zeros stand around. -/
def paddedEnvironment : Environment :=
  { parallelism := some "\t-03\u3000".toUTF8, batchSize := some " +00 ".toUTF8 }

/-- On eight cores they leave four workers besides the caller, and a batch is one job. -/
theorem paddedEnvironment_read :
    (ofEnvironment paddedEnvironment 8).batchSize.toNat = 1 ∧
      (ofEnvironment paddedEnvironment 8).workerThreads = 4 := by
  obtain ⟨hbatch, -, hworkers, -⟩ := ofEnvironment_exact paddedEnvironment 8
  have hzero : Environment.Holds false paddedEnvironment.batchSize (0 : UInt64).toNat :=
    ⟨[' '], ['+', '0', '0'], [' '], rfl, List.all_eq_true.1 rfl, List.all_eq_true.1 rfl,
      .plus ⟨by decide, List.all_eq_true.1 rfl⟩⟩
  have hthree : Environment.Holds true paddedEnvironment.parallelism (-3 : Int32).toInt :=
    ⟨['\t'], ['-', '0', '3'], ['\u3000'], rfl, List.all_eq_true.1 rfl,
      List.all_eq_true.1 rfl, .minus rfl ⟨by decide, List.all_eq_true.1 rfl⟩⟩
  exact ⟨hbatch 0 hzero, (hworkers (-3) hthree).trans (by decide)⟩

end Settings

end CheckRounds
