import CheckRounds.Proofs.Delivery
import CheckRounds.Proofs.Pool.Approach
import CheckRounds.Proofs.Pool.Sole
/-!
Jobs that are added in one go, while nobody asks anything else of the round.

The jobs get into the ledger all at once (`AtOnce.step`), and after that the thread that
added them rouses a sleeper, or all of them. Under a fair schedule both come to pass,
and then a worker that is alone in the work loop is not asleep (`Course.Fair.adds`,
`Course.Fair.rouses`).
-/

namespace CheckRounds

open Pool

variable {J E : Type} {n t u w : Nat} {h k : List (Moment J E)} {m : Move J E}
  {es : List (Event J E)} {p q : Pool J} {o : Upshot J E} {jobs : List J}
  {everyone : Bool}

/-! ## At most one addition -/

/-- With this moment nobody adds jobs to a round, waits for it, or closes it. -/
def Moment.Silent (m : Moment J E) : Prop := m.move.calls = []

instance (m : Moment J E) : Decidable m.Silent :=
  decidable_of_iff (m.move.calls.isEmpty = true) List.isEmpty_iff

theorem Pool.Sound.unadded_of_adding (hp : p.Sound)
    (hd : (p.thread t).duty = .adding jobs) :
    p.unadded = jobs := by
  have hslot := (hp.slot t).1 ((hp.threads t).of_adding hd).2.hasSlot
  rw [hp.unadded_of_slot (.inr hslot), Thread.unadded, hd]

/-- All that was handed over gets into the ledger with the same step. -/
theorem Turns.added_cases (hs : Turns p t m q es) (hp : p.Sound) (hm : m.calls = []) :
    es.flatMap Event.addedJobs = [] ∧ q.unadded = p.unadded ∨
    es.flatMap Event.addedJobs = p.unadded ∧ q.unadded = [] := by
  have hstep := hs.submitted hp
  rw [Move.submitted_of_calls hm, List.append_nil] at hstep
  obtain ⟨o, hs, ht⟩ := hs
  rcases hs.pending_cases with ⟨_, hnone, _⟩ | ⟨jobs, hd, rfl⟩ | ⟨role, _, _, rfl⟩
  · rw [ht.events, hnone] at hstep ⊢
    exact .inl ⟨rfl, hstep.symm⟩
  · have hadded : es.flatMap Event.addedJobs = p.unadded := by
      rw [ht.events, hp.unadded_of_adding hd]
      exact List.append_nil jobs
    rw [hadded] at hstep ⊢
    exact .inr ⟨rfl, List.append_right_eq_self.1 hstep.symm⟩
  · rw [ht.events] at hstep ⊢
    exact .inl ⟨rfl, hstep.symm⟩

/-- These jobs are about to be added, or were added, all at once. -/
def AtOnce (jobs : List J) (k : List (Moment J E)) (q : Pool J) : Prop :=
  jobsAdded k = [] ∧ q.unadded = jobs ∨ jobsAdded k = jobs ∧ q.unadded = []

theorem AtOnce.step {r : Pool J} (hk : AtOnce jobs k q) (hq : q.Sound) (hm : m.calls = [])
    (hstep : q.step t m = some (r, es)) :
    AtOnce jobs (k ++ [⟨t, m, es⟩]) r ∧
    (jobsAdded k = [] ∨ es.flatMap Event.addedJobs = []) := by
  have hadded :
      jobsAdded (k ++ [⟨t, m, es⟩]) = jobsAdded k ++ es.flatMap Event.addedJobs := by
    simp [jobsAdded]
  rcases (turns_of_step hstep).added_cases hq hm with ⟨hnone, hsame⟩ | ⟨hall, hleft⟩
  · refine ⟨?_, .inr hnone⟩
    rw [AtOnce, hadded, hnone, hsame, List.append_nil]
    exact hk
  · rcases hk with ⟨hbefore, hunadded⟩ | ⟨hbefore, hunadded⟩
    · refine ⟨.inr ⟨?_, hleft⟩, .inl hbefore⟩
      rw [hadded, hbefore, hall, hunadded]
      rfl
    · refine ⟨.inr ⟨?_, hleft⟩, .inr (hall.trans hunadded)⟩
      rw [hadded, hall, hunadded, hbefore, List.append_nil]

theorem AtOnce.start (hp : p.Sound) (hd : (p.thread t).duty = .adding jobs) :
    AtOnce jobs ([] : List (Moment J E)) p := .inl ⟨rfl, hp.unadded_of_adding hd⟩

theorem AtOnce.added (hk : AtOnce jobs k q) (he : (t, .added jobs) ∈ events k) :
    jobsAdded k = jobs := by
  rcases hk with ⟨hnone, _⟩ | ⟨hadded, _⟩
  · have hall := List.flatMap_eq_nil_iff.1 hnone _ he
    exact hnone.trans (show jobs = [] from hall).symm
  · exact hadded

/-! ## The steps of the thread that adds -/

theorem DutyStep.of_adding (h : DutyStep p t (.adding jobs) m q es)
    (hlast : (q.thread t).duty ≠ .adding jobs) (hd : (p.thread t).duty = .adding jobs) :
    es = [.added jobs] ∧ (q.thread t).duty = .rousing (jobs.length != 1) := by
  cases h with
  | lockLedger => exact absurd hd hlast
  | push => exact ⟨rfl, duty_setDuty _ _ _⟩

theorem DutyStep.of_rousing (h : DutyStep p t (.rousing everyone) m q es) :
    (q.thread t).duty = .client := by
  cases h with
  | lockLedger need => cases need
  | rouseAll | rouseNobody | rouseOne => exact duty_setDuty _ _ _

/-- It leaves nobody asleep who is alone in the work loop. -/
theorem Turns.awake_of_rousing (hs : Turns p t m q es)
    (hd : (p.thread t).duty = .rousing everyone) (hq : (q.thread t).duty = .client)
    (hsole : p.Sole w) (hw : w ≠ t) :
    (q.thread w).isAsleep = false := by
  obtain ⟨o, hs, ht⟩ := hs
  have hclient := ht.self ▸ hq
  have hfits := ht.fits
  rw [ht.others w hw]
  cases hs with
  | rouseAll => exact Thread.isAsleep_roused (p.thread w)
  | @rouseOne sleeper =>
    cases sleeper with
    | none => exact hfits w
    | some v =>
      have hv : v = w := by
        obtain ⟨role, hdv⟩ := Thread.exists_of_isAsleep hfits
        exact hsole.eq_of_looping hdv
      rw [Wake.touch, if_pos (by rw [hv])]
      exact Thread.isAsleep_roused (p.thread w)
  | still | clerical | configure | flag | spawn | retell => cases hd.symm.trans hclient
  | alarm =>
    have hsame : ((p.thread t).roused.withCall _).duty = (p.thread t).duty :=
      congrArg Thread.duty (Thread.roused_eq_self (by simp [Thread.isAsleep, hd]))
    cases hd.symm.trans (hsame.symm.trans hclient)
  | seize _ hd' => rcases hd' with hd' | hd' <;> cases hd.symm.trans hd'
  | opened hd' | submit hd' | push hd' | answer hd' | conclude hd' | reset hd'
  | release hd' | knock hd' | engage hd' | dismiss hd' | enter hd' | quit hd'
  | take hd' | drain hd' | sleep hd' | stir hd' | wake hd' | work hd' | finish hd'
  | report hd' | announce hd' | leave hd' =>
    cases hd.symm.trans hd'

/-! ## Both come to pass -/

namespace Course

variable {i j : Nat} {c : Course J E}

/-- Who is about to add jobs adds them. -/
theorem Fair.adds (hf : c.Fair) (hr : Reached n h (c.state 0))
    (hd : ((c.state i).thread t).duty = .adding jobs) :
    ∃ j k, i ≤ j ∧ ((c.state j).thread t).duty = .rousing (jobs.length != 1) ∧
      c.history j = c.history i ++ k ∧ (t, .added jobs) ∈ events k := by
  obtain ⟨j, m, es, hij, hj, hact, hstep, hduty, hlast⟩ :=
    hf.acts hr hd (by simp) (.inr rfl)
  obtain ⟨rfl, hrousing⟩ := hduty.of_adding hlast hj
  obtain ⟨k, hk⟩ := c.history_mono hij
  refine ⟨j + 1, k ++ [⟨t, m, [.added jobs]⟩], by omega, hrousing, ?_, by simp [events]⟩
  rw [history_of_step hact hstep, ← hk, List.append_assoc]

/-- And then it comes back to code of its own. -/
theorem Fair.add_returns (hf : c.Fair) (hr : Reached n h (c.state 0))
    (hd : ((c.state i).thread t).duty = .adding jobs) :
    ∃ j k, i ≤ j ∧ ((c.state j).thread t).duty = .client ∧
      c.history j = c.history i ++ k ∧ (t, .added jobs) ∈ events k := by
  obtain ⟨a, k, hia, hrousing, hk, hadded⟩ := hf.adds hr hd
  obtain ⟨b, _, _, hab, _, _, _, hduty, _⟩ := hf.acts hr hrousing (by simp) (.inl rfl)
  obtain ⟨k', hk'⟩ := c.history_mono (show a ≤ b + 1 by omega)
  refine ⟨b + 1, k ++ k', by omega, hduty.of_rousing, ?_, ?_⟩
  · rw [← hk', hk, List.append_assoc]
  · rw [events_append]
    exact List.mem_append_left _ hadded

/-- Who has yet to rouse sleepers does so; then nobody sleeps who is alone in the work
loop. -/
theorem Fair.rouses (hf : c.Fair) (hr : Reached n h (c.state 0))
    (hd : ((c.state i).thread t).duty = .rousing everyone)
    (hsole : ∀ j, (c.state j).Sole w) (hw : w ≠ t) :
    ∃ j, i ≤ j ∧ ((c.state j).thread w).isAsleep = false := by
  obtain ⟨j, m, es, hij, hj, _, hstep, hduty, _⟩ := hf.acts hr hd (by simp) (.inl rfl)
  exact ⟨j + 1, by omega,
    (turns_of_step hstep).awake_of_rousing hj hduty.of_rousing (hsole j) hw⟩

end Course

end CheckRounds
