import CheckRounds.Proofs.Pool.Course
/-!
How one thread comes to the end of what it does in the work loop.

Besides the steps that bring it nearer to its end a thread takes the ledger, which it
has to give back with its next step, and runs the code of its jobs, which is not the
pool's. If that code terminates, and the ledger becomes free again and again, the thread
cannot stay for ever (`Course.Fair.pursues`). Outside of the loop its next step but that
is the end of what it does (`Course.Fair.acts`). So a round that is asked for is opened
if the slot becomes free again and again (`Course.Fair.opens`).
-/

namespace CheckRounds

open Pool

variable {J E : Type} {n t u i j : Nat} {h : List (Moment J E)} {m : Move J E}
  {es : List (Event J E)} {p q : Pool J} {d : Duty J} {c : Course J E} {R : Pool J → Prop}
  {rank : Pool J → Nat} {busy : Thread J → Bool}

/-- The step does nothing but take the ledger, which the thread needs. -/
structure Pool.TakesLedger (p : Pool J) (t : Nat) (q : Pool J) : Prop where
  need : (p.thread t).need = .ledger
  free : p.ledgerLock = none
  after : q = { p with ledgerLock := some t }

/-- A step of `t` that lowers the rank, takes the ledger, or belongs to a job that the
thread is in. -/
def Pursues (t : Nat) (rank : Pool J → Nat) (busy : Thread J → Bool) (p q : Pool J) :
    Prop :=
  rank q < rank p ∨ rank q ≤ rank p ∧ (p.TakesLedger t q ∨ busy (p.thread t) = true)

namespace Course

/-- In a region of states, from time `i` on, each step of `t` lowers a rank, takes the
ledger, or belongs to a job that the thread is in; the steps of others leave the thread
as it is and do not raise the rank. Outside of its jobs `t` needs at most the ledger,
and it is outside of them again and again. -/
structure Pursuit (c : Course J E) (t i : Nat) (R : Pool J → Prop) (rank : Pool J → Nat)
    (busy : Thread J → Bool) : Prop where
  own : ∀ j m (es : List (Event J E)), i ≤ j → R (c.state j) → R (c.state (j + 1)) →
    (c.state j).step t m = some (c.state (j + 1), es) →
    Pursues t rank busy (c.state j) (c.state (j + 1))
  others : ∀ j u m (es : List (Event J E)), i ≤ j → u ≠ t → R (c.state j) →
    R (c.state (j + 1)) →
    c.act j = some (u, m) → (c.state j).step u m = some (c.state (j + 1), es) →
    (c.state (j + 1)).thread t = (c.state j).thread t ∧
    rank (c.state (j + 1)) ≤ rank (c.state j)
  need : ∀ j, i ≤ j → R (c.state j) → busy ((c.state j).thread t) = false →
    ((c.state j).thread t).need = .nothing ∨ ((c.state j).thread t).need = .ledger ∨
      ((c.state j).thread t).need = .freeLedger
  idle : (∀ j, i ≤ j → R (c.state j)) → ∀ j, i ≤ j →
    ∃ k, j ≤ k ∧ busy ((c.state k).thread t) = false

theorem Pursuit.rank_le (hp : c.Pursuit t i R rank busy) (hR : ∀ j, i ≤ j → R (c.state j))
    {k : Nat} (hik : i ≤ k) (hkj : k ≤ j) : rank (c.state j) ≤ rank (c.state k) := by
  induction j, hkj using Nat.le_induction with
  | base => exact Nat.le_refl _
  | succ j hkj ih =>
    refine Nat.le_trans ?_ ih
    rcases c.next_cases j with ⟨_, hsame⟩ | ⟨u, m, es, hact, hstep⟩
    · exact Nat.le_of_eq (by rw [hsame])
    · by_cases hu : u = t
      · subst hu
        exact (hp.own j m es (by omega) (hR j (by omega)) (hR _ (by omega)) hstep).elim
          Nat.le_of_lt And.left
      · exact (hp.others j u m es (by omega) hu (hR j (by omega)) (hR _ (by omega))
          hact hstep).2

/-- While the rank does not fall, a thread that is outside of its jobs stays as it is. -/
theorem Pursuit.thread_eq (hp : c.Pursuit t i R rank busy)
    (hR : ∀ j, i ≤ j → R (c.state j)) {k : Nat} (hik : i ≤ k)
    (hk : busy ((c.state k).thread t) = false)
    (hflat : ∀ j, k ≤ j → rank (c.state k) ≤ rank (c.state j)) (hkj : k ≤ j) :
    (c.state j).thread t = (c.state k).thread t := by
  induction j, hkj using Nat.le_induction with
  | base => rfl
  | succ j hkj ih =>
    rcases c.next_cases j with ⟨_, hsame⟩ | ⟨u, m, es, hact, hstep⟩
    · rw [hsame, ih]
    · by_cases hu : u = t
      · subst hu
        have hup := hflat (j + 1) (by omega)
        have hdown := hp.rank_le hR hik hkj
        rcases hp.own j m es (by omega) (hR j (by omega)) (hR _ (by omega)) hstep
          with hless | ⟨_, hor⟩
        · omega
        · rcases hor with htakes | hbusy
          · rw [← ih, htakes.after]
            rfl
          · rw [ih, hk] at hbusy
            cases hbusy
      · rw [(hp.others j u m es (by omega) hu (hR j (by omega)) (hR _ (by omega)) hact
          hstep).1, ih]

/-- A thread that stays as it is, outside of its jobs, would take the ledger, and after
that could only come nearer to its end. -/
theorem Fair.not_flat (hf : c.Fair) (hr : Reached n h (c.state 0))
    (hp : c.Pursuit t i R rank busy) (hR : ∀ j, i ≤ j → R (c.state j)) {k : Nat}
    (hik : i ≤ k) (hk : busy ((c.state k).thread t) = false) :
    ∃ j, k ≤ j ∧ rank (c.state j) < rank (c.state k) := by
  by_contra hstays
  have hflat : ∀ j, k ≤ j → rank (c.state k) ≤ rank (c.state j) :=
    fun j hkj => Nat.le_of_not_lt fun hlt => hstays ⟨j, hkj, hlt⟩
  have hthread {j : Nat} (hkj : k ≤ j) : (c.state j).thread t = (c.state k).thread t :=
    hp.thread_eq hR hik hk hflat hkj
  have hneed := hp.need k hik (hR k hik) hk
  have hdescent : c.Descent t k (fun p => p.thread t = (c.state k).thread t)
      fun p => if p.Lacks t then 1 else 0 := by
    constructor
    case own =>
      intro j hkj hj _ hm
      obtain ⟨m, es, hstep⟩ := hm.step
      rcases hp.own j m es (by omega) (hR j (by omega)) (hR _ (by omega)) hstep
        with hless | ⟨_, hor⟩
      · have hup := hflat (j + 1) (by omega)
        have hdown := hp.rank_le hR hik hkj
        omega
      · rcases hor with htakes | hbusy
        · have hlacks : (c.state j).Lacks t := .inl ⟨htakes.need, by simp [htakes.free]⟩
          have hhas : ¬ (c.state (j + 1)).Lacks t := by
            rintro (⟨_, hlock⟩ | ⟨hroster, _⟩)
            · exact hlock (by rw [htakes.after])
            · rw [hthread (by omega), ← hthread hkj] at hroster
              cases htakes.need.symm.trans hroster
          rw [if_pos hlacks, if_neg hhas]
          exact Nat.zero_lt_one
        · rw [hj, hk] at hbusy
          cases hbusy
    case others =>
      intro p q u m es hu hl hpt hstep
      have hne : (p.thread t).need ≠ .impulse := by
        rw [hpt]
        rcases hneed with hneed | hneed | hneed <;> simp [hneed]
      exact Nat.le_of_eq (by simp only [hl.lacks_iff hstep hu hne])
    case able =>
      intro l hkl _ _
      obtain ⟨j, hlj, hfree⟩ := hf.ledger_free hr l
      refine ⟨j, hlj, canGoOn_of_met (c.sound hr j) (c.orderly hr j) ?_⟩
      rw [hthread (by omega)]
      rcases hneed with hneed | hneed | hneed <;> rw [hneed]
      · trivial
      · exact .inl hfree
      · exact hfree
  obtain ⟨j, hkj, _, hleft, _⟩ := hf.leaves hr hdescent rfl
  exact hleft (hthread (by omega))

/-- Under a fair schedule the thread leaves the region. -/
theorem Fair.pursues (hf : c.Fair) (hr : Reached n h (c.state 0))
    (hp : c.Pursuit t i R rank busy) (hi : R (c.state i)) :
    ∃ j, i ≤ j ∧ R (c.state j) ∧ ¬ R (c.state (j + 1)) ∧
      ∃ u m es, c.act j = some (u, m) ∧
      (c.state j).step u m = some (c.state (j + 1), es) := by
  refine (c.stays_or_leaves hi).resolve_left fun hR => ?_
  have descends : ∀ r k, i ≤ k → rank (c.state k) = r → False := by
    intro r
    induction r using Nat.strongRecOn with
    | ind r ih =>
      intro k hik hrank
      obtain ⟨j, hkj, hj⟩ := hp.idle hR k hik
      obtain ⟨l, hjl, hlt⟩ := hf.not_flat hr hp hR (by omega) hj
      have hle := hp.rank_le hR hik hkj
      exact ih _ (by omega) l (by omega) rfl
  exact descends _ i (Nat.le_refl i) rfl

/-- Code that always takes its next step, but finitely many, comes to an end if the
calls return that it makes. -/
theorem leaves_code (goOn : ∀ j, i ≤ j → busy ((c.state j).thread t) = true →
      ((c.state j).thread t).call = none → ∃ k, j ≤ k ∧ c.Moves t k ∧
        busy ((c.state k).thread t) = true ∧ ((c.state k).thread t).call = none)
    (finite : ∀ j, i ≤ j → (∀ k, j ≤ k → busy ((c.state k).thread t) = true) →
      ∃ k, j ≤ k ∧ ∀ l, k ≤ l → ¬ (c.Moves t l ∧ busy ((c.state l).thread t) = true ∧
        ((c.state l).thread t).call = none))
    (calls : ∀ j, i ≤ j → (∀ k, j ≤ k → busy ((c.state k).thread t) = true) →
      ∃ k, j ≤ k ∧ ((c.state k).thread t).call = none)
    (hij : i ≤ j) : ∃ k, j ≤ k ∧ busy ((c.state k).thread t) = false := by
  by_contra hstays
  have hbusy : ∀ k, j ≤ k → busy ((c.state k).thread t) = true := by
    intro k hjk
    by_contra hleft
    exact hstays ⟨k, hjk, by simpa using hleft⟩
  obtain ⟨k, hjk, hquiet⟩ := finite j hij hbusy
  -- From `k` on the code of the job takes no step, but the call that it has made returns.
  obtain ⟨l, hkl, hnone⟩ := calls k (by omega) fun l hl => hbusy l (by omega)
  obtain ⟨x, hlx, hmoves⟩ := goOn l (by omega) (hbusy l (by omega)) hnone
  exact hquiet x (by omega) hmoves

end Course

/-! ## Outside of the work loop -/

/-- Code that is not the pool's needs an impulse. -/
theorem Thread.not_mayCall_of_need {th : Thread J} (h : th.duty.need ≠ .impulse) :
    ¬ th.MayCall := by
  rintro (hd | ⟨role, x, hd, hjob⟩)
  · simp [hd, Duty.need] at h
  · simp [hd, Duty.need, LoopStage.need, hjob] at h

/-- A step of a duty outside of the work loop takes the ledger, or is the last one of
the duty. -/
theorem DutyStep.takesLedger_or_last (h : DutyStep p t d m q es)
    (hc : (p.thread t).call = none) (hd : (p.thread t).duty = d)
    (hout : ∀ role stage, d ≠ .looping role stage) (hneed : d.need ≠ .impulse) :
    p.TakesLedger t q ∨ (q.thread t).duty ≠ d := by
  cases h with
  | lockLedger need free =>
    exact .inl ⟨by rw [Thread.need_of_duty hc, hd, need], free, rfl⟩
  | declineJob | enter | quit | take | drain | sleep | stir | wake | work | finish
  | report | announce | leave => exact absurd rfl (hout _ _)
  | knock | seizeAtOnce | decline | addNothing | submit | retell | engage | dismiss
  | engageToClose => exact absurd rfl hneed
  | release => exact .inr (by simp [Pool.release])
  | _ => exact .inr (by simp)

namespace Course

/-- Outside of the work loop, and of code that is not the pool's, a thread stays as it is
in the steps of others. -/
theorem thread_of_outside (hd : ((c.state j).thread t).duty = d)
    (hout : ∀ role stage, d ≠ .looping role stage) (hneed : d.need ≠ .impulse)
    (hu : u ≠ t) (hstep : (c.state j).step u m = some (c.state (j + 1), es)) :
    (c.state (j + 1)).thread t = (c.state j).thread t := by
  refine thread_of_ne hstep hu ?_ fun hclient => hneed (by rw [← hd, hclient]; rfl)
  unfold Thread.isAsleep
  split
  · rename_i hasleep
    exact absurd (hd.symm.trans hasleep) (hout _ _)
  · rfl

/-- Outside of the work loop, a thread that needs at most the ledger comes to the last
step of its duty. -/
theorem Fair.acts (hf : c.Fair) (hr : Reached n h (c.state 0))
    (hd : ((c.state i).thread t).duty = d) (hout : ∀ role stage, d ≠ .looping role stage)
    (hneed : d.need = .nothing ∨ d.need = .ledger) :
    ∃ j m es, i ≤ j ∧ ((c.state j).thread t).duty = d ∧ c.act j = some (t, m) ∧
      (c.state j).step t m = some (c.state (j + 1), es) ∧
      DutyStep (c.state j) t d m (c.state (j + 1)) es ∧
      ((c.state (j + 1)).thread t).duty ≠ d := by
  have himpulse : d.need ≠ .impulse := by rcases hneed with hneed | hneed <;> simp [hneed]
  have hmay {j} (hj : ((c.state j).thread t).duty = d) :
      ¬ ((c.state j).thread t).MayCall :=
    Thread.not_mayCall_of_need (hj ▸ himpulse)
  have hcall {j} (hj : ((c.state j).thread t).duty = d) :
      ((c.state j).thread t).call = none :=
    (c.orderly hr j).call_eq_none (hmay hj)
  have others {j u m} {es : List (Event J E)} (hu : u ≠ t)
      (hj : ((c.state j).thread t).duty = d)
      (hstep : (c.state j).step u m = some (c.state (j + 1), es)) :
      (c.state (j + 1)).thread t = (c.state j).thread t :=
    thread_of_outside hj hout himpulse hu hstep
  have hpursuit :
      c.Pursuit t i (fun p => (p.thread t).duty = d) (fun _ => 0) fun _ => false := by
    constructor
    case own =>
      intro j m es _ hj hj' hstep
      have hduty := (c.orderly hr j).dutyStep_of_step (hmay hj) hj hstep
      rcases hduty.takesLedger_or_last (hcall hj) hj hout himpulse with htakes | hlast
      · exact .inr ⟨Nat.le_refl 0, .inl htakes⟩
      · exact absurd hj' hlast
    case others =>
      intro j u m es _ hu hj _ _ hstep
      exact ⟨others hu hj hstep, Nat.le_refl 0⟩
    case need =>
      intro j _ hj _
      rw [Thread.need_of_duty (hcall hj), hj]
      exact hneed.imp_right .inl
    case idle => exact fun _ j _ => ⟨j, Nat.le_refl j, rfl⟩
  obtain ⟨j, hij, hj, hleft, u, m, es, hact, hstep⟩ := hf.pursues hr hpursuit hd
  obtain rfl : u = t := by
    by_contra hu
    exact hleft (by rw [others hu hj hstep, hj])
  have hduty := (c.orderly hr j).dutyStep_of_step (hmay hj) hj hstep
  exact ⟨j, m, es, hij, hj, hact, hstep, hduty, hleft⟩

end Course

/-! ## The opening of a round -/

theorem DutyStep.of_slot (h : DutyStep p t (.opening .slot) m q es) :
    (q.thread t).duty = .opening .ledger := by
  cases h with
  | lockLedger need => cases need
  | seize => exact duty_setDuty _ _ _

theorem DutyStep.of_opening (h : DutyStep p t (.opening .ledger) m q es)
    (hlast : (q.thread t).duty ≠ .opening .ledger)
    (hd : (p.thread t).duty = .opening .ledger) :
    (q.thread t).duty = .opening .logging := by
  cases h with
  | lockLedger => exact absurd hd hlast
  | reset => exact duty_setDuty _ _ _

theorem DutyStep.of_logging (h : DutyStep p t (.opening .logging) m q es) :
    (q.thread t).duty = .client ∧ (q.thread t).round = some {} := by
  cases h with
  | lockLedger need => cases need
  | opened => exact ⟨duty_setDuty _ _ _, by simp⟩

namespace Course

/-- Who waits for the slot gets it, if it becomes free again and again. -/
theorem Fair.seizes (hf : c.Fair) (hr : Reached n h (c.state 0))
    (hd : ((c.state i).thread t).duty = .opening .slot)
    (hfree : ∀ j, i ≤ j → ∃ k, j ≤ k ∧ (c.state k).slot = none) :
    ∃ j, i ≤ j ∧ ((c.state j).thread t).duty = .opening .ledger := by
  have hmay {j} (hj : ((c.state j).thread t).duty = .opening .slot) :
      ¬ ((c.state j).thread t).MayCall :=
    Thread.not_mayCall_of_need (by simp [hj, Duty.need])
  have hseize {j m} {es : List (Event J E)}
      (hj : ((c.state j).thread t).duty = .opening .slot)
      (hstep : (c.state j).step t m = some (c.state (j + 1), es)) :
      ((c.state (j + 1)).thread t).duty = .opening .ledger :=
    ((c.orderly hr j).dutyStep_of_step (hmay hj) hj hstep).of_slot
  rcases c.stays_or_leaves (R := fun p => (p.thread t).duty = .opening .slot) hd
    with hstays | ⟨j, hij, hj, hleft, u, m, es, _, hstep⟩
  · have hable (k) : ∃ j, k ≤ j ∧ (c.state j).CanGoOn E t := by
      obtain ⟨j, hkj, hslot⟩ := hfree (max i k) (Nat.le_max_left i k)
      have hj := hstays j (by omega)
      refine ⟨j, by omega, canGoOn_of_met (c.sound hr j) (c.orderly hr j) ?_⟩
      rw [Thread.need_of_duty ((c.orderly hr j).call_eq_none (hmay hj)), hj]
      exact hslot
    obtain ⟨j, hij, hmoves⟩ := hf t hable i
    obtain ⟨m, es, hstep⟩ := hmoves.step
    exact ⟨j + 1, by omega, hseize (hstays j hij) hstep⟩
  · obtain rfl : u = t := by
      by_contra hu
      have hsame := thread_of_outside hj (by simp) (by simp [Duty.need]) hu hstep
      exact hleft (by rw [hsame, hj])
    exact ⟨j + 1, by omega, hseize hj hstep⟩

/-- Who is about to open a round opens it. -/
theorem Fair.opens (hf : c.Fair) (hr : Reached n h (c.state 0)) {stage : OpeningStage}
    (hd : ((c.state i).thread t).duty = .opening stage)
    (hfree : stage = .slot → ∀ j, i ≤ j → ∃ k, j ≤ k ∧ (c.state k).slot = none) :
    ∃ j, i ≤ j ∧ ((c.state j).thread t).duty = .client ∧
      ((c.state j).thread t).round = some {} := by
  have logs {i} (hi : ((c.state i).thread t).duty = .opening .logging) :
      ∃ j, i ≤ j ∧ ((c.state j).thread t).duty = .client ∧
        ((c.state j).thread t).round = some {} := by
    obtain ⟨j, _, _, hij, _, _, _, hduty, _⟩ := hf.acts hr hi (by simp) (.inl rfl)
    exact ⟨j + 1, by omega, hduty.of_logging⟩
  have resets {i} (hi : ((c.state i).thread t).duty = .opening .ledger) :
      ∃ j, i ≤ j ∧ ((c.state j).thread t).duty = .client ∧
        ((c.state j).thread t).round = some {} := by
    obtain ⟨a, _, _, hia, ha, _, _, hduty, hlast⟩ := hf.acts hr hi (by simp) (.inr rfl)
    obtain ⟨j, haj, hj⟩ := logs (hduty.of_opening hlast ha)
    exact ⟨j, by omega, hj⟩
  cases stage with
  | slot =>
    obtain ⟨a, hia, ha⟩ := hf.seizes hr hd (hfree rfl)
    obtain ⟨j, haj, hj⟩ := resets ha
    exact ⟨j, by omega, hj⟩
  | ledger => exact resets hd
  | logging => exact logs hd

end Course

end CheckRounds
