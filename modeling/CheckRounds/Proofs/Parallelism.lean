import CheckRounds.Settings.Parallelism
import Mathlib.Data.UInt
/-!
A count of workers in words against the same count in integers.

A parallelism is a short word, and a count of cores that is no signed word is cut to the
largest one. So neither the sum nor the difference on the way leaves its word
(`WithinWords`), and each is the one of the integers. The cut itself does not show: that
many cores give as many workers as there may be, however many are to stay free
(`clamp_totalThreads_min`). What remains is a clamp of one total, and more workers
follow from a larger total.
-/

namespace CheckRounds

/-- The threads that verify, the caller included, where numbers have no bounds. -/
def totalThreads (parallelism : Int) (cores : Nat) : Int :=
  if 0 < parallelism then parallelism else cores + parallelism

/-- No operation on signed words leaves the range of its word. The sum is formed only
for a parallelism that is not positive; for the others it may well be too large. -/
structure WithinWords (parallelism : Int32) (cores : UInt64) : Prop where
  sum : parallelism.toInt64 ≤ 0 →
    ¬ parallelism.toInt64.toBitVec.saddOverflow (signedCores cores).toBitVec
  difference :
    ¬ (verifyingThreads parallelism cores).toBitVec.ssubOverflow (1 : Int64).toBitVec

variable {p q : Int32} {cores more : UInt64}

/-! ## The operations on words -/

theorem toInt_signedCores (cores : UInt64) :
    (signedCores cores).toInt = (min cores.toNat (2 ^ 63 - 1) : Nat) := by
  unfold signedCores
  split
  · rename_i hlt
    have hcores : cores.toNat < 2 ^ 63 := UInt64.lt_iff_toNat_lt.1 hlt
    have hword : cores.toInt64.toInt = cores.toNat :=
      BitVec.toInt_eq_toNat_of_lt
        (by rw [UInt64.toBitVec_toInt64, UInt64.toNat_toBitVec]; omega)
    rw [hword]
    omega
  · rename_i hge
    have hcores : 2 ^ 63 ≤ cores.toNat := UInt64.le_iff_toNat_le.1 (UInt64.not_lt.1 hge)
    rw [Int64.toInt_maxValue]
    omega

theorem toInt64_le_zero_iff : p.toInt64 ≤ 0 ↔ p.toInt ≤ 0 := by
  rw [Int64.le_iff_toInt_le, Int32.toInt_toInt64, Int64.toInt_zero]

/-- A number that is not positive and one that is not negative have their sum between
them. -/
theorem sum_within (hp : p.toInt64 ≤ 0) :
    ¬ p.toInt64.toBitVec.saddOverflow (signedCores cores).toBitVec := by
  have hnonpos := toInt64_le_zero_iff.1 hp
  have hlow := p.le_toInt
  simp only [BitVec.saddOverflow, Int64.toInt_toBitVec, Int32.toInt_toInt64,
    toInt_signedCores,
    Bool.or_eq_true, decide_eq_true_eq, not_or, ge_iff_le, Int.not_le, Int.not_lt]
  omega

theorem toInt_verifyingThreads (p : Int32) (cores : UInt64) :
    (verifyingThreads p cores).toInt =
      totalThreads p.toInt (min cores.toNat (2 ^ 63 - 1)) := by
  unfold verifyingThreads totalThreads
  dsimp only
  by_cases hp : p.toInt64 ≤ 0
  · have hnonpos := toInt64_le_zero_iff.1 hp
    have hsum : (p.toInt64 + signedCores cores).toInt =
        p.toInt64.toInt + (signedCores cores).toInt :=
      BitVec.toInt_add_of_not_saddOverflow (sum_within hp)
    rw [if_pos hp, if_neg (Int.not_lt.2 hnonpos), hsum, Int32.toInt_toInt64,
      toInt_signedCores]
    exact Int.add_comm _ _
  · have hpos : 0 < p.toInt := Int.not_le.1 (mt toInt64_le_zero_iff.2 hp)
    rw [if_neg hp, if_pos hpos, Int32.toInt_toInt64]

theorem difference_within (p : Int32) (cores : UInt64) :
    ¬ (verifyingThreads p cores).toBitVec.ssubOverflow (1 : Int64).toBitVec := by
  have hlow := p.le_toInt
  have hhigh := p.toInt_lt
  simp only [BitVec.ssubOverflow, Int64.toInt_toBitVec, toInt_verifyingThreads,
    totalThreads, Int64.toInt_one,
    Bool.or_eq_true, decide_eq_true_eq, not_or, ge_iff_le, Int.not_le, Int.not_lt]
  split <;> omega

theorem withinWords (p : Int32) (cores : UInt64) : WithinWords p cores :=
  ⟨sum_within, difference_within p cores⟩

/-! ## The count of workers -/

/-- Cores beyond the largest signed word make no difference: that many give the most
workers already, however many of them a short word leaves free. -/
theorem clamp_totalThreads_min {parallelism : Int} (hlow : -2 ^ 31 ≤ parallelism)
    (cores : Nat) :
    max 0 (min 15 (totalThreads parallelism (min cores (2 ^ 63 - 1)) - 1)) =
      max 0 (min 15 (totalThreads parallelism cores - 1)) := by
  unfold totalThreads
  split
  · rfl
  · omega

theorem toNat_dedicatedWorkers (p : Int32) (cores : UInt64) :
    ((dedicatedWorkers p cores).toNat : Int) =
      max 0 (min 15 (totalThreads p.toInt cores.toNat - 1)) := by
  have hothers :
      (verifyingThreads p cores - 1).toInt = (verifyingThreads p cores).toInt - 1 :=
    BitVec.toInt_sub_of_not_ssubOverflow (difference_within p cores)
  rw [toInt_verifyingThreads] at hothers
  -- The words are exact about the cut count of cores, so the cut is put into the
  -- formula first.
  rw [← clamp_totalThreads_min p.le_toInt, ← hothers]
  unfold dedicatedWorkers
  dsimp only
  split
  · rename_i hnone
    have hnonpos := Int64.le_iff_toInt_le.1 hnone
    rw [Int64.toInt_zero] at hnonpos
    rw [UInt64.toNat_zero]
    omega
  · rename_i hsome
    have hpos := Int64.le_of_lt (Int64.not_le.1 hsome)
    have hword := Int64.cast_toNatClampNeg _ hpos
    rw [UInt64.toNat_min, Int64.toNat_toUInt64_of_le hpos]
    have hlimit : maxWorkerThreads.toNat = 15 := rfl
    omega

theorem dedicatedWorkers_le (parallelism : Int32) (cores : UInt64) :
    dedicatedWorkers parallelism cores ≤ maxWorkerThreads := by
  unfold dedicatedWorkers
  dsimp only
  split
  · decide
  · exact Std.min_le_right

/-! ## More threads, more workers -/

theorem totalThreads_le_of_cores_le {cores more : Nat} (parallelism : Int)
    (h : cores ≤ more) :
    totalThreads parallelism cores ≤ totalThreads parallelism more := by
  unfold totalThreads
  split <;> omega

/-- Only a step from zero to one may lose threads: there the meaning of the number
changes. -/
theorem totalThreads_le_of_le {parallelism larger : Int} (cores : Nat)
    (h : parallelism ≤ larger) (hsame : 0 < parallelism ∨ larger ≤ 0) :
    totalThreads parallelism cores ≤ totalThreads larger cores := by
  unfold totalThreads
  split <;> split <;> omega

example : totalThreads 0 8 = 8 ∧ totalThreads 1 8 = 1 := by decide

theorem dedicatedWorkers_le_of_totalThreads_le
    (h : totalThreads p.toInt cores.toNat ≤ totalThreads q.toInt more.toNat) :
    dedicatedWorkers p cores ≤ dedicatedWorkers q more := by
  rw [UInt64.le_iff_toNat_le, ← Int.ofNat_le, toNat_dedicatedWorkers,
    toNat_dedicatedWorkers]
  omega

/-! ## The count in full -/

/-- The workers are the threads that verify less the caller, kept between none and
fifteen, and no operation on the way overflows. More cores never give fewer workers, nor
does a larger parallelism that is still a number of cores to leave, or a number of
threads, as the smaller one was. No settings with this count are refused. -/
theorem dedicatedWorkers_exact (p : Int32) (cores : UInt64) :
    WithinWords p cores ∧
    ((dedicatedWorkers p cores).toNat : Int) =
      max 0 (min 15 (totalThreads p.toInt cores.toNat - 1)) ∧
    (∀ more, cores ≤ more → dedicatedWorkers p cores ≤ dedicatedWorkers p more) ∧
    (∀ larger, p ≤ larger → larger ≤ 0 →
      dedicatedWorkers p cores ≤ dedicatedWorkers larger cores) ∧
    (∀ larger, p ≤ larger → 0 < p →
      dedicatedWorkers p cores ≤ dedicatedWorkers larger cores) ∧
    ∀ s : Settings, s.workerThreads = dedicatedWorkers p cores → s.validate = .ok () := by
  refine ⟨withinWords p cores, toNat_dedicatedWorkers p cores, ?_, ?_, ?_, ?_⟩
  · intro more h
    have hcores := UInt64.le_iff_toNat_le.1 h
    exact dedicatedWorkers_le_of_totalThreads_le (totalThreads_le_of_cores_le _ hcores)
  · intro larger h hnone
    have hle := Int32.le_iff_toInt_le.1 h
    have hnonpos := Int32.le_iff_toInt_le.1 hnone
    exact dedicatedWorkers_le_of_totalThreads_le
      (totalThreads_le_of_le _ hle (.inr hnonpos))
  · intro larger h hsome
    have hle := Int32.le_iff_toInt_le.1 h
    have hpos := Int32.lt_iff_toInt_lt.1 hsome
    exact dedicatedWorkers_le_of_totalThreads_le (totalThreads_le_of_le _ hle (.inl hpos))
  · intro s hs
    rw [Settings.validate_eq_ok_iff, hs]
    exact dedicatedWorkers_le p cores

/-- As many cores as can be named are to stay free. With eight more than these, seven
workers help the caller; with all the cores that a word counts, fifteen do. Four threads
in all leave three to the workers. -/
theorem leastParallelism_exact :
    ((dedicatedWorkers Int32.minValue 2147483656).toNat : Int) = 7 ∧
    dedicatedWorkers Int32.minValue 2147483656 ≤
      dedicatedWorkers Int32.minValue 18446744073709551615 ∧
    ((dedicatedWorkers Int32.minValue 18446744073709551615).toNat : Int) = 15 ∧
    dedicatedWorkers Int32.minValue 2147483656 ≤ dedicatedWorkers 0 2147483656 ∧
    dedicatedWorkers 4 2 = 3 ∧ dedicatedWorkers 4 2 ≤ dedicatedWorkers 100 2 ∧
    ((Settings.ofParallelism Int32.minValue 2147483656).withBatchSize 0).validate =
      .ok () := by
  obtain ⟨-, hseven, hcores, hfree, -, hvalid⟩ :=
    dedicatedWorkers_exact Int32.minValue 2147483656
  obtain ⟨-, hlimit, -⟩ := dedicatedWorkers_exact Int32.minValue 18446744073709551615
  obtain ⟨-, -, -, -, hthreads, -⟩ := dedicatedWorkers_exact 4 2
  exact ⟨hseven.trans (by decide), hcores _ (by decide), hlimit.trans (by decide),
    hfree 0 (by decide) (by decide), by decide, hthreads 100 (by decide) (by decide),
    hvalid _ rfl⟩

end CheckRounds
