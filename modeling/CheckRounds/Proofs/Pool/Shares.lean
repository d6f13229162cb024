import CheckRounds.Pool.Ledger
import Mathlib.Algebra.GroupWithZero.Nat
import Mathlib.Data.List.SplitLengths
import Mathlib.Data.Nat.Log
/-!
How the waiting jobs are shared out.

The share of one thread is a quotient of what waits, kept between one job and the batch
size. While the threads that are counted do not change, the sizes of the batches follow
from the number of jobs alone. Here are the two sequences of interest: a thread that is
alone takes half of what is left, or a full batch (`soleShares`); and threads that come
back from their sleep one after another divide what was added among them (`spread`).
-/

namespace CheckRounds

namespace Ledger

/-! ## One share -/

theorem share_eq {waiting : Nat} (batchSize participants idle : Nat) (hw : 0 < waiting) :
    share waiting batchSize participants idle =
      max 1 (min batchSize (waiting / (participants + idle + 1))) := by
  have hquotient : waiting / (participants + idle + 1) ≤ waiting := Nat.div_le_self _ _
  unfold share
  omega

/-- Who shares is counted, so the divisor is at least two. -/
theorem share_le_half {waiting participants : Nat} (batchSize idle : Nat)
    (hw : 0 < waiting) (hp : 1 ≤ participants) :
    share waiting batchSize participants idle ≤ max 1 (min batchSize (waiting / 2)) := by
  have hquotient : waiting / (participants + idle + 1) ≤ waiting / 2 :=
    Nat.div_le_div_left (by omega) (by omega)
  rw [share_eq _ _ _ hw]
  omega

theorem share_eq_self_iff {waiting participants : Nat} (batchSize idle : Nat)
    (hw : 0 < waiting) (hp : 1 ≤ participants) :
    share waiting batchSize participants idle = waiting ↔ waiting = 1 := by
  have hhalf := share_le_half batchSize idle hw hp
  have hone := one_le_share batchSize participants idle hw
  have hle := share_le waiting batchSize participants idle
  omega

theorem share_le_batchSize {waiting batchSize : Nat} (participants idle : Nat)
    (hw : 0 < waiting) (hb : 1 ≤ batchSize) :
    share waiting batchSize participants idle ≤ batchSize := by
  rw [share_eq _ _ _ hw]
  omega

theorem share_mono {waiting waiting' : Nat} (batchSize participants idle : Nat)
    (h : waiting ≤ waiting') :
    share waiting batchSize participants idle ≤
      share waiting' batchSize participants idle := by
  have hquotient :
      waiting / (participants + idle + 1) ≤ waiting' / (participants + idle + 1) :=
    Nat.div_le_div_right h
  unfold share
  omega

/-! ## The shares of a thread that is alone -/

/-- The sizes of the batches in which `n` jobs are taken by a thread that is the only
one counted and awake. -/
def soleShares (b n : Nat) : List Nat :=
  if n = 0 then [] else share n b 1 0 :: soleShares b (n - share n b 1 0)
termination_by n
decreasing_by
  have := one_le_share b 1 0 (Nat.pos_of_ne_zero ‹n ≠ 0›)
  omega

@[simp] theorem soleShares_zero (b : Nat) : soleShares b 0 = [] := by
  rw [soleShares, if_pos rfl]

theorem soleShares_pos (b : Nat) {n : Nat} (hn : 0 < n) :
    soleShares b n = share n b 1 0 :: soleShares b (n - share n b 1 0) := by
  rw [soleShares, if_neg (Nat.ne_of_gt hn)]

/-- The batches in which a thread takes these jobs that is the only one counted and
awake. -/
def soleBatches {J : Type} (b : Nat) (jobs : List J) : List (List J) :=
  (soleShares b jobs.length).splitLengths jobs

@[simp] theorem soleBatches_nil {J : Type} (b : Nat) :
    soleBatches b ([] : List J) = [] := by
  simp [soleBatches]

theorem soleBatches_of_ne_nil {J : Type} (b : Nat) {jobs : List J} (hj : jobs ≠ []) :
    soleBatches b jobs = jobs.take (share jobs.length b 1 0) ::
      soleBatches b (jobs.drop (share jobs.length b 1 0)) := by
  rw [soleBatches, soleShares_pos b (List.length_pos_iff.2 hj), List.splitLengths_cons,
    soleBatches, List.length_drop]

/-- The sizes of batches that together hold `n` jobs, as they come out when a thread
works alone: none is larger than the one before, or than `b`; the last one holds a
single job; and there are no more of them than full batches, and halvings of what is
less than two full batches. -/
structure Tapers (b n : Nat) (sizes : List Nat) : Prop where
  descending : sizes.Pairwise (· ≥ ·)
  capped : ∀ s ∈ sizes, s ≤ b
  sum : sizes.sum = n
  last : sizes.getLast? = some 1
  few : sizes.length ≤ n / b + Nat.clog 2 (2 * b)

variable {b : Nat}

/-- What is left is less, and so are all later shares. -/
theorem le_share_of_mem_soleShares {n s : Nat} (hs : s ∈ soleShares b n) :
    s ≤ share n b 1 0 := by
  induction n using Nat.strongRecOn with
  | ind n ih =>
    rcases Nat.eq_zero_or_pos n with rfl | hn
    · simp at hs
    · have hone := one_le_share b 1 0 hn
      rw [soleShares_pos b hn] at hs
      rcases List.mem_cons.1 hs with rfl | hs
      · exact Nat.le_refl _
      · exact Nat.le_trans (ih _ (by omega) hs) (share_mono b 1 0 (Nat.sub_le _ _))

theorem soleShares_descending (b n : Nat) : (soleShares b n).Pairwise (· ≥ ·) := by
  induction n using Nat.strongRecOn with
  | ind n ih =>
    rcases Nat.eq_zero_or_pos n with rfl | hn
    · simp
    · have hone := one_le_share b 1 0 hn
      rw [soleShares_pos b hn]
      refine List.pairwise_cons.2 ⟨fun s hs => ?_, ih _ (by omega)⟩
      exact Nat.le_trans (le_share_of_mem_soleShares hs)
        (share_mono b 1 0 (Nat.sub_le _ _))

theorem sum_soleShares (b n : Nat) : (soleShares b n).sum = n := by
  induction n using Nat.strongRecOn with
  | ind n ih =>
    rcases Nat.eq_zero_or_pos n with rfl | hn
    · simp
    · have hone := one_le_share b 1 0 hn
      have hle := share_le n b 1 0
      rw [soleShares_pos b hn, List.sum_cons, ih _ (by omega)]
      omega

theorem map_length_soleBatches {J : Type} (b : Nat) (jobs : List J) :
    (soleBatches b jobs).map List.length = soleShares b jobs.length :=
  List.map_splitLengths_length _ _ (Nat.le_of_eq (sum_soleShares b jobs.length))

/-- More than half is never taken, so the last job is taken by itself. -/
theorem getLast?_soleShares (b : Nat) {n : Nat} (hn : 0 < n) :
    (soleShares b n).getLast? = some 1 := by
  induction n using Nat.strongRecOn with
  | ind n ih =>
    have hone := one_le_share b 1 0 hn
    have hle := share_le n b 1 0
    have hself := share_eq_self_iff b 0 hn (Nat.le_refl 1)
    rw [soleShares_pos b hn]
    rcases Nat.eq_zero_or_pos (n - share n b 1 0) with hleft | hleft
    · rw [hleft, soleShares_zero]
      simp only [List.getLast?_singleton, Option.some.injEq]
      omega
    · rw [List.getLast?_cons, ih _ (by omega) hleft]
      rfl

/-- Below two full batches what is left is halved each time, rounded up. -/
theorem length_soleShares_of_lt {n : Nat} (hn : 0 < n) (hlt : n < 2 * b) :
    (soleShares b n).length ≤ Nat.clog 2 n + 1 := by
  induction n using Nat.strongRecOn with
  | ind n ih =>
    have hshare := share_eq b 1 0 hn
    rw [soleShares_pos b hn, List.length_cons]
    rcases Nat.lt_or_ge n 2 with hsmall | hlarge
    · have hrest : n - share n b 1 0 = 0 := by omega
      rw [hrest, soleShares_zero]
      simp
    · have hrest : n - share n b 1 0 = (n + 2 - 1) / 2 := by omega
      have hlog : Nat.clog 2 n = Nat.clog 2 (n - share n b 1 0) + 1 := by
        rw [hrest]
        exact Nat.clog_of_two_le (by omega) hlarge
      have hhalf := ih (n - share n b 1 0) (by omega) (by omega) (by omega)
      omega

theorem clog_two_mul {b : Nat} (hb : 1 ≤ b) : Nat.clog 2 (2 * b) = Nat.clog 2 b + 1 := by
  rw [Nat.clog_of_two_le (by omega) (by omega), show (2 * b + 2 - 1) / 2 = b by omega]

/-- First full batches, then halves of less than two full batches. -/
theorem length_soleShares_le {n : Nat} (hb : 1 ≤ b) (hn : 0 < n) :
    (soleShares b n).length ≤ n / b + Nat.clog 2 (2 * b) := by
  induction n using Nat.strongRecOn with
  | ind n ih =>
    rcases Nat.lt_or_ge n (2 * b) with hlt | hge
    · have hlen := length_soleShares_of_lt hn hlt
      have hlog := clog_two_mul hb
      rcases Nat.lt_or_ge n b with hless | hfull
      · have hle : Nat.clog 2 n ≤ Nat.clog 2 b := Nat.clog_mono_right 2 (by omega)
        exact Nat.le_trans (by omega) (Nat.le_add_left _ _)
      · have hle : Nat.clog 2 n ≤ Nat.clog 2 (2 * b) := Nat.clog_mono_right 2 (by omega)
        have hquotient : 1 ≤ n / b := Nat.div_pos hfull hb
        omega
    · -- A full batch is taken, and the quotient falls by one.
      have hshare : share n b 1 0 = b := by
        rw [share_eq _ _ _ hn]
        omega
      have hquotient : n / b = (n - b) / b + 1 := Nat.div_eq_sub_div hb (by omega)
      have hrest := ih (n - b) (by omega) (by omega)
      rw [soleShares_pos b hn, List.length_cons, hshare]
      omega

theorem tapers_soleShares {n : Nat} (hb : 1 ≤ b) (hn : 0 < n) :
    Tapers b n (soleShares b n) where
  descending := soleShares_descending b n
  capped _ hs :=
    Nat.le_trans (le_share_of_mem_soleShares hs) (share_le_batchSize 1 0 hn hb)
  sum := sum_soleShares b n
  last := getLast?_soleShares b hn
  few := length_soleShares_le hb hn

example : Tapers 3 13 [3, 3, 3, 2, 1, 1] := by
  have hshares : soleShares 3 13 = [3, 3, 3, 2, 1, 1] := by
    simp [soleShares, share]
  exact hshares ▸ tapers_soleShares (by omega) (by omega)

/-! ## The shares of threads that come back from their sleep -/

/-- The sizes of the batches that the next `i` of `workers` threads take, each on its
return from sleep, when `n` jobs wait. The others hold a batch each, and those that are
not yet back count as idle. -/
def spread (b workers : Nat) : Nat → Nat → List Nat
  | 0, _ => []
  | i + 1, n =>
    if n = 0 then []
    else share n b workers i :: spread b workers i (n - share n b workers i)

variable {workers i n l u s : Nat}

@[simp] theorem spread_none (b workers i : Nat) : spread b workers i 0 = [] := by
  cases i <;> rfl

theorem spread_pos (b workers i : Nat) (hn : 0 < n) :
    spread b workers (i + 1) n =
      share n b workers i :: spread b workers i (n - share n b workers i) := by
  rw [spread, if_neg (Nat.ne_of_gt hn)]

/-- A share of more than one job leaves as much to each thread that is still to come. -/
theorem mul_share_le (b workers i : Nat) (hn : 0 < n) :
    share n b workers i = 1 ∨
    (workers + i) * share n b workers i ≤ n - share n b workers i := by
  rcases Nat.eq_or_lt_of_le (one_le_share b workers i hn) with hone | hmore
  · exact .inl hone.symm
  · refine .inr ?_
    have hquotient : share n b workers i ≤ n / (workers + i + 1) := by
      rw [share_eq _ _ _ hn] at hmore ⊢
      omega
    have hmul : (workers + i + 1) * share n b workers i ≤ n :=
      Nat.le_trans (Nat.mul_le_mul_left _ hquotient) (Nat.mul_div_le _ _)
    rw [Nat.add_one_mul] at hmul
    omega

/-- Nobody goes away empty-handed while something waits. -/
theorem length_spread (b workers i n : Nat) :
    (spread b workers i n).length = min n i := by
  induction i generalizing n with
  | zero => simp [spread]
  | succ i ih =>
    rcases Nat.eq_zero_or_pos n with rfl | hn
    · simp
    · have hone := one_le_share b workers i hn
      have hle := share_le n b workers i
      rw [spread_pos b workers i hn, List.length_cons, ih]
      rcases mul_share_le b workers i hn with hsingle | hmany
      · omega
      · have hleft : i ≤ n - share n b workers i := calc
          i ≤ (workers + i) * 1 := by omega
          _ ≤ (workers + i) * share n b workers i := Nat.mul_le_mul_left _ hone
          _ ≤ n - share n b workers i := hmany
        omega

theorem sum_spread_le (b workers i n : Nat) : (spread b workers i n).sum ≤ n := by
  induction i generalizing n with
  | zero => simp [spread]
  | succ i ih =>
    rcases Nat.eq_zero_or_pos n with rfl | hn
    · simp
    · have hle := share_le n b workers i
      have hrest := ih (n - share n b workers i)
      rw [spread_pos b workers i hn, List.sum_cons]
      omega

/-- No later share is below `l`, if `l` jobs can be left to each. -/
theorem le_of_mem_spread (hb : l ≤ b) (hl : l ≤ 1 ∨ (workers + i) * l ≤ n)
    (hs : s ∈ spread b workers i n) : l ≤ s := by
  induction i generalizing n with
  | zero => cases hs
  | succ i ih =>
    rcases Nat.eq_zero_or_pos n with rfl | hn
    · simp at hs
    · have hone := one_le_share b workers i hn
      have hhead : l ≤ share n b workers i := by
        rcases hl with hl | hl
        · omega
        · have hquotient : l ≤ n / (workers + i + 1) :=
            (Nat.le_div_iff_mul_le (by omega)).2 (by rw [Nat.mul_comm]; exact hl)
          rw [share_eq _ _ _ hn]
          omega
      rw [spread_pos b workers i hn] at hs
      rcases List.mem_cons.1 hs with rfl | hs
      · exact hhead
      · refine ih ?_ hs
        rcases mul_share_le b workers i hn with hsingle | hmany
        · omega
        · exact .inr (Nat.le_trans (Nat.mul_le_mul_left _ hhead) hmany)

theorem spread_ascending (hb : 1 ≤ b) (workers i n : Nat) :
    (spread b workers i n).Pairwise (· ≤ ·) := by
  induction i generalizing n with
  | zero => exact List.Pairwise.nil
  | succ i ih =>
    rcases Nat.eq_zero_or_pos n with rfl | hn
    · simp
    · rw [spread_pos b workers i hn]
      refine List.pairwise_cons.2 ⟨fun s hs => ?_, ih _⟩
      refine le_of_mem_spread (share_le_batchSize _ _ hn hb) ?_ hs
      exact (mul_share_le b workers i hn).imp_left Nat.le_of_eq

/-- No later share is above `u`, if `u` is the batch size or `u` jobs for each are
enough. -/
theorem mem_spread_le (hu : 1 ≤ u) (hn : b ≤ u ∨ n ≤ (workers + i) * u)
    (hs : s ∈ spread b workers i n) : s ≤ u := by
  induction i generalizing n with
  | zero => cases hs
  | succ i ih =>
    rcases Nat.eq_zero_or_pos n with rfl | hpos
    · simp at hs
    · have hshare := share_eq b workers i hpos
      have hquotient : b ≤ u ∨ n / (workers + i + 1) ≤ u :=
        hn.imp_right fun h => Nat.div_le_of_le_mul h
      rw [spread_pos b workers i hpos] at hs
      rcases List.mem_cons.1 hs with rfl | hs
      · omega
      · refine ih ?_ hs
        rcases Nat.lt_or_ge u b with hub | hbu
        · refine .inr ?_
          have hleft := hn.resolve_left (by omega)
          rw [show workers + (i + 1) = workers + i + 1 by omega, Nat.add_one_mul] at hleft
          by_cases hfull : u ≤ share n b workers i
          · omega
          · -- Neither cap nor floor makes the share smaller than the quotient.
            have hsucc : n < (share n b workers i + 1) * (workers + i + 1) :=
              (Nat.div_lt_iff_lt_mul (by omega)).1 (by omega)
            rw [Nat.mul_add_one, Nat.mul_comm] at hsucc
            have hless :
                n - share n b workers i ≤ (workers + i) * (share n b workers i + 1) := by
              omega
            exact hless.trans (Nat.mul_le_mul_left _ (by omega))
        · exact .inl hbu

/-- The shares of `workers` threads that come back from their sleep one after another,
when `n` jobs were added while nothing else waited: nobody goes away empty-handed unless
all is taken, no share is smaller than the one before, the first one is known, and no
two differ by more than one. -/
structure Spreads (b workers n : Nat) (sizes : List Nat) : Prop where
  length : sizes.length = min n workers
  ascending : sizes.Pairwise (· ≤ ·)
  first : sizes.head? = some (max 1 (min b (n / (2 * workers))))
  even : ∀ s ∈ sizes, ∀ s' ∈ sizes, s' ≤ s + 1
  sum_le : sizes.sum ≤ n

theorem spreads_spread (hb : 1 ≤ b) (hw : 1 ≤ workers) (hn : 0 < n) :
    Spreads b workers n (spread b workers workers n) := by
  obtain ⟨i, rfl⟩ : ∃ i, workers = i + 1 := ⟨workers - 1, by omega⟩
  have hfirst : share n b (i + 1) i = max 1 (min b (n / (2 * (i + 1)))) := by
    rw [share_eq _ _ _ hn, show i + 1 + i + 1 = 2 * (i + 1) by omega]
  have hcons := spread_pos b (i + 1) i hn
  have hascending := spread_ascending hb (i + 1) (i + 1) n
  refine ⟨length_spread b (i + 1) (i + 1) n,
    hascending, by rw [hcons, List.head?_cons, hfirst],
    fun s hs s' hs' => ?_, sum_spread_le b (i + 1) (i + 1) n⟩
  -- The first share is the least, and no share exceeds it by more than one.
  have hlow : share n b (i + 1) i ≤ s := by
    rw [hcons] at hs hascending
    rcases List.mem_cons.1 hs with rfl | hs
    · exact Nat.le_refl _
    · exact (List.pairwise_cons.1 hascending).1 s hs
  have hhigh : s' ≤ share n b (i + 1) i + 1 := by
    refine mem_spread_le (Nat.le_add_left 1 _) ?_ hs'
    rw [hfirst]
    rcases Nat.le_total b (n / (2 * (i + 1))) with hcap | hcap
    · exact .inl (by omega)
    · refine .inr ?_
      have hlt : n < (max 1 (min b (n / (2 * (i + 1)))) + 1) * (2 * (i + 1)) :=
        (Nat.div_lt_iff_lt_mul (by omega)).1 (by omega)
      rw [show i + 1 + (i + 1) = 2 * (i + 1) by omega, Nat.mul_comm]
      exact Nat.le_of_lt hlt
  omega

example : Spreads 8 4 30 [3, 3, 4, 4] := by
  have hshares : spread 8 4 4 30 = [3, 3, 4, 4] := rfl
  exact hshares ▸ spreads_spread (by omega) (by omega) (by omega)

end Ledger

end CheckRounds
