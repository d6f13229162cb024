import CheckRounds.Proofs.Pool.Shift
import Mathlib.Data.List.Perm.Subperm
/-!
Counts over all threads of a pool.

A count that no thread contributes to by being roused or by starting as a worker
changes, in one step, by exactly what the thread that moves contributes before and after
(`Turn.total_threads`). So the accounting of a step needs to look at one thread only.
-/

namespace CheckRounds

open Pool

/-! ## Counts over lists that grow with a default -/

theorem total_eq_zero {α : Type} {f : α → Nat} {as : List α} (h : ∀ a ∈ as, f a = 0) :
    total f as = 0 := by
  induction as with
  | nil => rfl
  | cons a as ih =>
    rw [total, h a (by simp), ih fun b hb => h b (by simp [hb])]

theorem total_congr {α : Type} {f g : α → Nat} {as : List α} (h : ∀ a ∈ as, f a = g a) :
    total f as = total g as := by
  induction as with
  | nil => rfl
  | cons a as ih => rw [total, total, h a (by simp), ih fun b hb => h b (by simp [hb])]

theorem total_map {α β : Type} (f : β → Nat) (g : α → β) (as : List α) :
    total f (as.map g) = total (fun a => f (g a)) as := by
  induction as with
  | nil => rfl
  | cons a as ih => rw [List.map_cons, total, total, ih]

/-- A count grows with the items, however far the lists were padded. -/
theorem total_mono {α : Type} {f : α → Nat} {pad : α} (hf : f pad = 0) {as bs : List α}
    (h : ∀ u, f (as.getD u pad) ≤ f (bs.getD u pad)) : total f as ≤ total f bs := by
  induction as generalizing bs with
  | nil => exact Nat.zero_le _
  | cons a as ih =>
    cases bs with
    | nil =>
      -- Behind its end the second list counts as padding, which weighs nothing.
      refine Nat.le_of_eq (total_eq_zero fun b hb => ?_)
      obtain ⟨u, hu⟩ := List.getElem?_of_mem hb
      have hb0 := h u
      rw [List.getD_eq_getElem?_getD, List.getD_eq_getElem?_getD, hu] at hb0
      simpa [hf] using hb0
    | cons b bs =>
      have hhead : f a ≤ f b := h 0
      have htail : total f as ≤ total f bs := ih fun u => h (u + 1)
      rw [total, total]
      omega

theorem total_append {α : Type} (f : α → Nat) (as bs : List α) :
    total f (as ++ bs) = total f as + total f bs := by
  induction as with
  | nil => simp [total]
  | cons a as ih =>
    rw [List.cons_append, total, total, ih]
    omega

theorem le_total {α : Type} (f : α → Nat) {as : List α} {a : α} (h : a ∈ as) :
    f a ≤ total f as := by
  induction as with
  | nil => cases h
  | cons b as ih =>
    rw [total]
    rcases List.mem_cons.1 h with rfl | h
    · omega
    · have := ih h
      omega

theorem total_eq_zero_iff {α : Type} (f : α → Nat) (as : List α) :
    total f as = 0 ↔ ∀ a ∈ as, f a = 0 := by
  constructor
  · intro hzero a ha
    have hle := le_total f ha
    omega
  · exact total_eq_zero

theorem exists_of_total_pos {α : Type} {f : α → Nat} {as : List α} (h : 0 < total f as) :
    ∃ a ∈ as, 0 < f a := by
  induction as with
  | nil => simp [total] at h
  | cons a as ih =>
    by_cases ha : 0 < f a
    · exact ⟨a, by simp, ha⟩
    · have hrest : 0 < total f as := by
        rw [total] at h
        omega
      obtain ⟨b, hb, hpos⟩ := ih hrest
      exact ⟨b, by simp [hb], hpos⟩

theorem total_flatten {α : Type} (f : α → Nat) (ass : List (List α)) :
    total f ass.flatten = total (total f) ass := by
  induction ass with
  | nil => rfl
  | cons as ass ih => rw [List.flatten_cons, total_append, ih, total]

theorem total_one {α : Type} (as : List α) : total (fun _ => 1) as = as.length := by
  induction as with
  | nil => rfl
  | cons a as ih => rw [total, ih, List.length_cons, Nat.add_comm]

theorem total_toNat {α : Type} (f : α → Bool) (as : List α) :
    total (fun a => (f a).toNat) as = as.countP f := by
  induction as with
  | nil => rfl
  | cons a as ih =>
    rw [total, ih, List.countP_cons, Nat.add_comm]
    cases f a <;> rfl

theorem total_add {α : Type} (f g : α → Nat) (as : List α) :
    total (fun a => f a + g a) as = total f as + total g as := by
  induction as with
  | nil => rfl
  | cons a as ih =>
    rw [total, total, total, ih]
    omega

theorem total_indicator {α : Type} [DecidableEq α] (a : α) (as : List α) :
    total (fun b => if b = a then 1 else 0) as = as.count a := by
  induction as with
  | nil => rfl
  | cons b as ih =>
    rw [total, ih, List.count_cons, Nat.add_comm]
    simp

/-- Lists that no weight tells apart have the same items. -/
theorem perm_of_total {α : Type} {as bs : List α}
    (h : ∀ f : α → Nat, total f as = total f bs) :
    as.Perm bs := by
  classical
  apply List.perm_iff_count.2
  intro a
  rw [← total_indicator, ← total_indicator]
  exact h _

/-- A list that no weight finds heavier has its items among those of the other. -/
theorem subperm_of_total {α : Type} {as bs : List α}
    (h : ∀ f : α → Nat, total f as ≤ total f bs) :
    as.Subperm bs := by
  classical
  apply List.subperm_ext_iff.2
  intro a _
  rw [← total_indicator, ← total_indicator]
  exact h _

/-! ## Counts over the threads of a pool -/

variable {J E : Type} {f : Thread J → Nat} {p q : Pool J} {t : Nat}

theorem thread_mem_or_default (p : Pool J) (u : Nat) :
    p.thread u ∈ p.threads ∨ p.thread u = {} := by
  unfold thread
  rw [List.getD_eq_getElem?_getD]
  cases hu : p.threads[u]? with
  | none => exact .inr rfl
  | some th => exact .inl (List.mem_of_getElem? hu)

theorem exists_thread_of_mem {th : Thread J} (h : th ∈ p.threads) :
    ∃ u, p.thread u = th := by
  obtain ⟨u, hu⟩ := List.getElem?_of_mem h
  exact ⟨u, by rw [thread, List.getD_eq_getElem?_getD, hu]; rfl⟩

theorem thread_le_total (hf : f {} = 0) (u : Nat) :
    f (p.thread u) ≤ total f p.threads := by
  rcases thread_mem_or_default p u with h | h
  · exact le_total f h
  · rw [h, hf]
    exact Nat.zero_le _

theorem exists_thread_of_total_pos (h : 0 < total f p.threads) :
    ∃ u, 0 < f (p.thread u) := by
  obtain ⟨th, hm, hth⟩ := exists_of_total_pos h
  obtain ⟨u, rfl⟩ := exists_thread_of_mem hm
  exact ⟨u, hth⟩

/-- Where no thread but `t` contributes less, the count loses at most what `t` does. -/
theorem total_change_le (hf : f {} = 0)
    (h : ∀ u, u ≠ t → f (p.thread u) ≤ f (q.thread u)) :
    total f p.threads + f (q.thread t) ≤ total f q.threads + f (p.thread t) := by
  have hle : total f (put {} p.threads t (q.thread t)) ≤ total f q.threads := by
    refine total_mono hf ?_
    intro u
    rw [getD_put]
    by_cases hu : u = t
    · rw [if_pos hu, hu]
      exact Nat.le_refl _
    · rw [if_neg hu]
      exact h u hu
  have hput := total_put {} f hf p.threads t (q.thread t)
  rw [← thread] at hput
  omega

theorem total_change (hf : f {} = 0) (h : ∀ u, u ≠ t → f (q.thread u) = f (p.thread u)) :
    total f q.threads + f (p.thread t) = total f p.threads + f (q.thread t) :=
  Nat.le_antisymm (total_change_le hf fun u hu => Nat.le_of_eq (h u hu))
    (total_change_le hf fun u hu => Nat.le_of_eq (h u hu).symm)

/-- What holds of each thread as before holds of as many. -/
theorem countP_eq_of_forall {f : Thread J → Bool} (hf : f {} = false)
    (h : ∀ u, f (q.thread u) = f (p.thread u)) :
    q.threads.countP f = p.threads.countP f := by
  have hnew : (f {}).toNat = 0 := by rw [hf]; rfl
  have hsame (u : Nat) : (f (q.thread u)).toNat = (f (p.thread u)).toNat := by rw [h u]
  rw [← total_toNat, ← total_toNat]
  exact Nat.le_antisymm (total_mono (f := fun th => (f th).toNat) hnew
    fun u => Nat.le_of_eq (hsame u))
    (total_mono (f := fun th => (f th).toNat) hnew fun u => Nat.le_of_eq (hsame u).symm)

/-- A share that does not depend on whether a thread was roused or has just started. -/
structure Steady (f : Thread J → Nat) : Prop where
  idle : f {} = 0
  newborn : f { duty := .looping .worker .entering } = 0
  roused : ∀ th : Thread J, f th.roused = f th

/-- What a step does to a count is what it does to the share of the thread that moves. -/
theorem Turn.total_threads {es : List (Event J E)} {o : Upshot J E} (ht : Turn p t q es o)
    (hf : Steady f) :
    total f q.threads + f (p.thread t) = total f p.threads + f o.thread := by
  rw [← ht.self]
  exact total_change hf.idle fun u hu =>
    ht.same hf.roused (hf.newborn.trans hf.idle.symm) hu

end CheckRounds
