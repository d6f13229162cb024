import CheckRounds.Proofs.Pool.Draining
import CheckRounds.Proofs.Pool.Trace
/-!
How the opener of a round comes to its verdict.

From the call on that waits for its round or closes it, the opener is in the work loop
until the round is drained; then it notes the verdict, and gives it, or gives the slot
back. Nobody adds jobs meanwhile. Without workers it is alone in the loop and does not
sleep, so under a fair schedule, and if the code of its jobs terminates, it comes to the
end (`Course.Fair.concludes`).
-/

namespace CheckRounds

open Pool

variable {J E : Type} {n t u i j : Nat} {h : List (Moment J E)} {m : Move J E}
  {es : List (Event J E)} {p q : Pool J} {o : Upshot J E} {why : Occasion}
  {c : Course J E}

/-! ## A wait and a close under way -/

/-- The thread waits for its round, or closes it: it is in the work loop, or about to
note the verdict, or about to give the slot back. -/
def Thread.Concludes (why : Occasion) (th : Thread J) : Prop :=
  match th.duty with
  | .looping (.owner w) _ => w = why
  | .completing _ w => w = why
  | .releasing u => why = .closing u
  | _ => False

instance (why : Occasion) (th : Thread J) : Decidable (th.Concludes why) := by
  unfold Thread.Concludes
  split <;> infer_instance

/-- The wait is over with these events, since the verdict is given, or the close is,
since the slot is given back. -/
def Occasion.Over (es : List (Event J E)) : Occasion → Prop
  | .waiting => ∃ v, .returned (.verdict v) ∈ es
  | .closing _ => .closed ∈ es

namespace Thread.Concludes

variable {th : Thread J}

theorem cases_duty (h : th.Concludes why) :
    (∃ stage, th.duty = .looping (.owner why) stage) ∨
      (∃ v, th.duty = .completing v why) ∨
      ∃ u, why = .closing u ∧ th.duty = .releasing u := by
  unfold Concludes at h
  split at h
  case h_1 hd => exact .inl ⟨_, h ▸ hd⟩
  case h_2 hd => exact .inr (.inl ⟨_, h ▸ hd⟩)
  case h_3 hd => exact .inr (.inr ⟨_, h, hd⟩)
  case h_4 => cases h

theorem of_duty {th' : Thread J} (h : th.Concludes why) (hd : th'.duty = th.duty) :
    th'.Concludes why := by
  unfold Concludes
  rwa [hd]

theorem of_looping {stage : LoopStage J} (hd : th.duty = .looping (.owner why) stage) :
    th.Concludes why := by
  simp [Concludes, hd]

theorem role (h : th.Concludes why) {role : Role} {stage : LoopStage J}
    (hd : th.duty = .looping role stage) : role = .owner why := by
  cases role with
  | worker => simp [Concludes, hd] at h
  | owner w =>
    obtain rfl : w = why := by simpa [Concludes, hd] using h
    rfl

theorem not_client (h : th.Concludes why) : th.duty ≠ .client := by
  intro hd
  simp [Concludes, hd] at h

theorem hasSlot (h : th.Concludes why) (hs : th.Sound) : th.HasSlot := by
  rcases h.cases_duty with ⟨stage, hd⟩ | ⟨v, hd⟩ | ⟨u, _, hd⟩
  · exact (hs.undecided hd).hasSlot
  · simp only [Sound, hd] at hs
    exact hs.hasSlot
  · simp only [Sound, hd] at hs
    exact hs.hasSlot

end Thread.Concludes

theorem Thread.concludes_roused (th : Thread J) :
    th.roused.Concludes why ↔ th.Concludes why :=
  roused_iff (fun th role hd => by cases role <;> simp [Concludes, hd]) th

/-- A thread waits until it gives the verdict, and closes until it gives the slot back.
After that it is a client again. -/
theorem Shift.concludes {l : Ledger J} {s : Option Nat} {th : Thread J}
    (h : Shift t l s th m o) (hc : th.Concludes why) :
    o.thread.Concludes why ∨ why.Over o.events ∧ o.thread.duty = .client := by
  cases h with
  | still | clerical | configure | flag | spawn | retell => exact .inl hc
  | alarm => exact .inl ((Thread.concludes_roused th).2 hc)
  | enter hd | take hd | sleep hd | stir hd | wake hd | work hd | finish hd | report hd
  | announce hd | leave hd =>
    obtain rfl := hc.role hd
    exact .inl rfl
  | drain hd =>
    cases hc.role hd
    exact .inl rfl
  | answer hd =>
    obtain rfl : Occasion.waiting = why := by simpa [Thread.Concludes, hd] using hc
    exact .inr ⟨⟨_, List.mem_cons_of_mem _ List.mem_cons_self⟩, rfl⟩
  | @conclude v u _ hd =>
    obtain rfl : Occasion.closing u = why := by simpa [Thread.Concludes, hd] using hc
    exact .inl rfl
  | @release u hd =>
    obtain rfl : why = .closing u := by simpa [Thread.Concludes, hd] using hc
    exact .inr ⟨List.mem_cons_self, rfl⟩
  | quit hd => cases hc.role hd
  | seize _ hd => rcases hd with hd | hd <;> simp [Thread.Concludes, hd] at hc
  | opened hd | submit hd | push hd | reset hd | knock hd | rouseAll hd | rouseOne hd
  | engage hd | dismiss hd => simp [Thread.Concludes, hd] at hc

theorem Turns.concludes (hs : Turns p u m q es) (hc : (p.thread t).Concludes why) :
    (q.thread t).Concludes why ∨ u = t ∧ why.Over es ∧ (q.thread t).duty = .client := by
  obtain ⟨o, hs, ht⟩ := hs
  by_cases hu : t = u
  · subst hu
    rw [ht.self, ht.events]
    exact (hs.concludes hc).imp_right fun hover => ⟨rfl, hover⟩
  · refine .inl ((ht.same_iff Thread.concludes_roused ?_ hu).2 hc)
    simp [Thread.Concludes]

/-- Only the opener of a round adds to it, and not while it waits for the round or
closes it. -/
theorem Pool.Sound.none_added (hp : p.Sound) (hc : (p.thread t).Concludes why)
    (hstep : p.step u m = some (q, es)) : es.flatMap Event.addedJobs = [] := by
  obtain ⟨o, hs, ht⟩ := turns_of_step hstep
  rw [ht.events]
  rcases hs.pending_cases with ⟨_, hnone, _⟩ | ⟨jobs, hd, rfl⟩ | ⟨role, _, _, rfl⟩
  · exact hnone
  · have hslot := (hp.slot t).1 (hc.hasSlot (hp.threads t))
    obtain rfl := hp.eq_of_hasSlot hslot ((hp.threads u).of_adding hd).2.hasSlot
    simp [Thread.Concludes, hd] at hc
  · rfl

/-! ## The opener without workers -/

namespace Pool.Unstaffed

/-- It is the only one in the work loop. -/
theorem sole (hu : p.Unstaffed) (hp : p.Sound) (ht : (p.thread t).HasSlot) :
    p.Sole t := by
  intro u hne
  cases hd : (p.thread u).duty with
  | looping role stage => exact absurd (hu.eq_opener hp ht hd) hne
  | _ => exact Thread.loops_of_duty hd

/-- It does not sleep, since nobody else has jobs of the round, or would rouse it. -/
theorem not_asleep (hu : p.Unstaffed) (hp : p.Sound) (hw : OpenerWaits p) :
    (p.thread t).duty ≠ .looping (.owner why) .asleep := by
  intro hd
  have hslot := ((hp.threads t).undecided hd).hasSlot
  obtain ⟨hnone, hpos | ⟨u, role, hherald⟩⟩ := hw t why hd
  · have hidle : (p.thread t).inFlight = 0 := by simp [Thread.inFlight, hd]
    exact Nat.ne_of_gt hpos (hu.todo_eq_zero hp hslot hidle hnone)
  · obtain rfl := hu.eq_opener hp hslot hherald
    cases hd.symm.trans hherald

end Pool.Unstaffed

theorem DutyStep.of_completing {v : Bool} (h : DutyStep p t (.completing v why) m q es) :
    (q.thread t).duty = .client ∨ ∃ u, (q.thread t).duty = .releasing u := by
  cases h with
  | lockLedger need => cases need
  | answer => exact .inl (duty_setDuty _ _ _)
  | conclude => exact .inr ⟨_, duty_setDuty _ _ _⟩

theorem DutyStep.of_releasing {unwinding : Bool}
    (h : DutyStep p t (.releasing unwinding) m q es) : (q.thread t).duty = .client := by
  cases h with
  | lockLedger need => cases need
  | release => exact duty_setDuty _ _ _

namespace Course

/-- It toils as long as it is in the work loop. -/
theorem toils_of_unstaffed (hr : Reached n h (c.state 0))
    (halone : ∀ j, i ≤ j → (c.state j).Unstaffed)
    (hcalls : ∀ j, i ≤ j → ∃ k, j ≤ k ∧ ((c.state k).thread t).call = none)
    (hloop : ∀ j, i ≤ j →
      ∃ stage, ((c.state j).thread t).duty = .looping (.owner why) stage) :
    c.Toils t (.owner why) i where
  sole j hij := by
    obtain ⟨stage, hd⟩ := hloop j hij
    exact (halone j hij).sole (c.sound hr j)
      (((c.sound hr j).threads t).undecided hd).hasSlot
  awake j hij := by
    obtain ⟨stage, hd⟩ := hloop j hij
    refine ⟨stage, hd, ?_⟩
    rintro rfl
    exact (halone j hij).not_asleep (c.sound hr j) (c.openerWaits hr j) hd
  finds j hij hd hnone := by
    have hslot := (((c.sound hr j).threads t).undecided hd).hasSlot
    have hidle : ((c.state j).thread t).inFlight = 0 := by simp [Thread.inFlight, hd]
    exact ⟨by simp, (halone j hij).todo_eq_zero (c.sound hr j) hslot hidle hnone⟩
  calls := hcalls
  closed j u m es hij _ hstep := by
    obtain ⟨stage, hd⟩ := hloop j hij
    exact (c.sound hr j).none_added (.of_looping hd) hstep

/-- Under a fair schedule, an opener that waits for its round or closes it comes to the
end once there are no workers, if the code of its jobs terminates and the calls return
that it makes. -/
theorem Fair.concludes (hf : c.Fair) (hr : Reached n h (c.state 0)) (hcode : c.CodeEnds t)
    (halone : ∀ j, i ≤ j → (c.state j).Unstaffed)
    (hcalls : ∀ j, i ≤ j → ∃ k, j ≤ k ∧ ((c.state k).thread t).call = none) :
    ∃ j, i ≤ j ∧ ¬ ((c.state j).thread t).Concludes why := by
  by_contra hnever
  have hstays (j) (hij : i ≤ j) : ((c.state j).thread t).Concludes why := by
    by_contra hover
    exact hnever ⟨j, hij, hover⟩
  have not_releasing (j) (hij : i ≤ j) (u : Bool) :
      ((c.state j).thread t).duty ≠ .releasing u := by
    intro hd
    obtain ⟨k, m, es, hjk, _, _, _, hduty, _⟩ := hf.acts hr hd (by simp) (.inl rfl)
    exact (hstays (k + 1) (by omega)).not_client hduty.of_releasing
  have not_completing (j) (hij : i ≤ j) (v : Bool) :
      ((c.state j).thread t).duty ≠ .completing v why := by
    intro hd
    obtain ⟨k, m, es, hjk, _, _, _, hduty, _⟩ := hf.acts hr hd (by simp) (.inl rfl)
    rcases hduty.of_completing with hclient | ⟨u, hreleasing⟩
    · exact (hstays (k + 1) (by omega)).not_client hclient
    · exact not_releasing (k + 1) (by omega) u hreleasing
  have hloop (j) (hij : i ≤ j) :
      ∃ stage, ((c.state j).thread t).duty = .looping (.owner why) stage := by
    rcases (hstays j hij).cases_duty with hloop | ⟨v, hd⟩ | ⟨u, _, hd⟩
    · exact hloop
    · exact absurd hd (not_completing j hij v)
    · exact absurd hd (not_releasing j hij u)
  exact hf.not_toils hr hcode (toils_of_unstaffed hr halone hcalls hloop)

end Course

end CheckRounds
