import CheckRounds.Proofs.Pool.Sound
import Mathlib.Logic.Basic
/-!
No wake-up is lost.

Sleepers are roused after the ledger was given back, so between a change of the ledger
and the call that announces it a thread owes that call. The opener of a round that
sleeps while nobody owes a call to all sleepers waits for a worker that has a batch.
Rousing one sleeper only, for one job only, is enough as well: there are never more jobs
waiting than calls owed and workers about to look.
-/

namespace CheckRounds

open Pool

variable {J E : Type} {n t u : Nat} {h : List (Moment J E)} {m : Move J E}
  {es : List (Event J E)} {p q : Pool J} {o : Upshot J E} {why : Occasion}

/-! ## Who sleeps and who owes a call -/

namespace Thread

/-- The thread drained the round with its report, and has yet to rouse all sleepers. -/
def Heralds (th : Thread J) : Prop := ∃ role, th.duty = .looping role .rousing

/-- The thread changed the ledger, and has yet to rouse all sleepers. -/
def OwesAlarm (th : Thread J) : Prop :=
  th.duty = .rousing true ∨ th.Heralds ∨ th.call = some (.stopping .rousing)

theorem heralds_roused (th : Thread J) : th.roused.Heralds ↔ th.Heralds :=
  roused_iff (fun th role hd => by simp [Heralds, hd]) th

theorem owesAlarm_roused (th : Thread J) : th.roused.OwesAlarm ↔ th.OwesAlarm :=
  roused_iff (fun th role hd => by simp [OwesAlarm, Heralds, hd]) th

theorem looping_of_inFlight {th : Thread J} (h : 0 < th.inFlight) :
    ∃ role stage, th.duty = .looping role stage := by
  unfold inFlight at h
  split at h
  · rename_i hd
    exact ⟨_, _, hd⟩
  · rename_i hd
    exact ⟨_, _, hd⟩
  · omega

theorem asleep_of_roused {th : Thread J} {role : Role} :
    th.roused.duty ≠ .looping role .asleep := by
  unfold Thread.roused
  split
  · simp
  · rename_i hn
    exact hn role

theorem exists_of_isAsleep {th : Thread J} (h : th.isAsleep = true) :
    ∃ role, th.duty = .looping role .asleep := by
  unfold isAsleep at h
  split at h
  · exact ⟨_, ‹_›⟩
  · cases h

theorem isAsleep_roused (th : Thread J) : th.roused.isAsleep = false := by
  rw [Bool.eq_false_iff]
  intro hasleep
  obtain ⟨role, hd⟩ := exists_of_isAsleep hasleep
  exact asleep_of_roused hd

end Thread

theorem Turn.asleep_before (ht : Turn p u q es o) (hu : t ≠ u) {role : Role}
    (hd : (q.thread t).duty = .looping role .asleep) :
    (p.thread t).duty = .looping role .asleep ∧ o.wake ≠ .everyone := by
  rw [ht.others t hu] at hd
  cases hw : o.wake with
  | nobody =>
    rw [hw] at hd
    exact ⟨hd, by simp⟩
  | everyone =>
    rw [hw] at hd
    exact absurd hd Thread.asleep_of_roused
  | one sleeper =>
    rw [hw, Wake.touch] at hd
    split at hd
    · exact absurd hd Thread.asleep_of_roused
    · exact ⟨hd, by simp⟩
  | newborn v =>
    rw [hw, Wake.touch] at hd
    split at hd
    · cases hd
    · exact ⟨hd, by simp⟩

/-! ## The opener of the round -/

/-- Only who finds nothing to take, and the opener only if the round is not drained,
falls asleep. -/
theorem Shift.of_asleep {l : Ledger J} {s : Option Nat} {th : Thread J}
    (h : Shift t l s th m o) {role : Role} (hd : o.thread.duty = .looping role .asleep) :
    (th.duty = .looping role .asleep ∨ l.pending = [] ∧ (role ≠ .worker → 0 < l.todo)) ∧
      o.ledger.pending = l.pending ∧ o.ledger.todo = l.todo := by
  cases h with
  | still | clerical | configure | flag | spawn | retell => exact ⟨.inl hd, rfl, rfl⟩
  | alarm => exact absurd hd Thread.asleep_of_roused
  | sleep _ _ noWork undone =>
    simp only [Thread.duty_withDuty, Duty.looping.injEq, and_true] at hd
    rw [hd] at undone
    exact ⟨.inr ⟨noWork, fun hr => Nat.pos_of_ne_zero (undone hr)⟩, rfl, rfl⟩
  | report =>
    simp only [Thread.duty_withDuty, Duty.looping.injEq] at hd
    split at hd <;> simp at hd
  | @leave role' =>
    cases role' <;> simp [afterLoop] at hd
  | _ => simp at hd

/-- A thread without the slot keeps `pending` empty, and a round that is not drained
stays so until the thread that drains it has yet to call. -/
theorem Shift.undrained {l : Ledger J} {s : Option Nat} {th : Thread J}
    (h : Shift t l s th m o) (hs : th.Sound) (hn : ¬ th.HasSlot) (hp : l.pending = [])
    (hw : o.wake ≠ .everyone) :
    o.ledger.pending = [] ∧
      (0 < l.todo ∨ th.Heralds → 0 < o.ledger.todo ∨ o.thread.Heralds) := by
  cases h with
  | still | clerical | configure | flag | spawn | retell => exact ⟨hp, fun ht => ht⟩
  | alarm | rouseAll | announce => exact absurd rfl hw
  | push hd =>
    simp only [Thread.Sound, hd] at hs
    exact absurd hs.2.hasSlot hn
  | drain hd => exact absurd (hs.undecided hd).hasSlot hn
  | take _ _ work => exact absurd hp work
  | @report role tally hd =>
    refine ⟨hp, fun _ => ?_⟩
    by_cases hz : (l.report tally).todo = 0
    · exact .inr ⟨role, by rw [Thread.duty_withDuty, if_pos hz]⟩
    · exact .inl (Nat.pos_of_ne_zero hz)
  | @leave role v hd =>
    refine ⟨hp, fun ht => .inl (ht.resolve_right ?_)⟩
    simp [Thread.Heralds, hd]
  | seize _ hd =>
    refine ⟨hp, fun ht => .inl (ht.resolve_right ?_)⟩
    rcases hd with hd | hd <;> simp [Thread.Heralds, hd]
  | opened hd | submit hd | answer hd | conclude hd | reset hd | release hd | knock hd
  | rouseOne hd | engage hd | dismiss hd | enter hd | quit hd | sleep hd | stir hd
  | wake hd | work hd | finish hd =>
    refine ⟨hp, fun ht => .inl (ht.resolve_right ?_)⟩
    simp [Thread.Heralds, hd]

/-- The opener sleeps only while nothing waits, and the round is not drained, or a call
to all sleepers is about to come. -/
def OpenerWaits (p : Pool J) : Prop :=
  ∀ t why, (p.thread t).duty = .looping (.owner why) .asleep →
    p.ledger.pending = [] ∧ (0 < p.ledger.todo ∨ ∃ u, (p.thread u).Heralds)

theorem Turn.heralds_of_ne (ht : Turn p u q es o) (hu : t ≠ u) :
    (q.thread t).Heralds ↔ (p.thread t).Heralds :=
  ht.same_iff Thread.heralds_roused (by simp [Thread.Heralds]) hu

theorem OpenerWaits.turn (hi : OpenerWaits p) (hp : p.Sound) (hs : Turns p u m q es) :
    OpenerWaits q := by
  obtain ⟨o, hs, ht⟩ := hs
  intro t why hd
  by_cases hu : t = u
  · subst hu
    rw [ht.self] at hd
    obtain ⟨hbefore, hpending, htodo⟩ := hs.of_asleep hd
    rw [ht.ledger, hpending, htodo]
    rcases hbefore with hasleep | ⟨hnone, hpos⟩
    · obtain ⟨hnone, hwait⟩ := hi t why hasleep
      refine ⟨hnone, hwait.imp_right fun ⟨w, hw⟩ => ⟨w, (ht.heralds_of_ne ?_).2 hw⟩⟩
      rintro rfl
      simp [Thread.Heralds, hasleep] at hw
    · exact ⟨hnone, .inl (hpos (by simp))⟩
  · obtain ⟨hasleep, hwake⟩ := ht.asleep_before hu hd
    obtain ⟨hnone, hwait⟩ := hi t why hasleep
    have hslot := (hp.slot t).1 ((hp.threads t).undecided hasleep).hasSlot
    have hn : ¬ (p.thread u).HasSlot := fun hslot' =>
      hu (hp.eq_of_hasSlot hslot hslot').symm
    -- Only the report of the mover can end the wait, and then the mover has yet to call.
    obtain ⟨hnone', hkeep⟩ := hs.undrained (hp.threads u) hn hnone hwake
    rw [ht.ledger]
    refine ⟨hnone', ?_⟩
    have hmover (hw : 0 < p.ledger.todo ∨ (p.thread u).Heralds) :
        0 < o.ledger.todo ∨ ∃ w, (q.thread w).Heralds :=
      (hkeep hw).imp_right fun h => ⟨u, by rwa [ht.self]⟩
    rcases hwait with hpos | ⟨w, hw⟩
    · exact hmover (.inl hpos)
    · by_cases hwu : w = u
      · subst hwu
        exact hmover (.inr hw)
      · exact .inr ⟨w, (ht.heralds_of_ne hwu).2 hw⟩

theorem Reached.openerWaits (hr : Reached n h p) : OpenerWaits p :=
  hr.induct (C := fun _ p => OpenerWaits p) (fun t why hd => by cases hd)
    fun hp hi ht => hi.turn hp ht

/-- While the opener of the round sleeps and nobody owes a call to all sleepers, nothing
waits, and a worker has a batch. -/
theorem Reached.worker_busy_of_opener_asleep (hr : Reached n h p)
    (hd : (p.thread t).duty = .looping (.owner why) .asleep)
    (hquiet : ∀ u, ¬ (p.thread u).OwesAlarm) :
    p.ledger.pending = [] ∧ 0 < p.ledger.todo ∧
      ∃ u stage, (p.thread u).duty = .looping .worker stage ∧
      0 < (p.thread u).inFlight := by
  have hs := hr.sound
  obtain ⟨hnone, hwait⟩ := hr.openerWaits t why hd
  have hpos : 0 < p.ledger.todo := by
    refine hwait.resolve_right ?_
    rintro ⟨u, hu⟩
    exact hquiet u (.inr (.inl hu))
  refine ⟨hnone, hpos, ?_⟩
  have htotal : 0 < total Thread.inFlight p.threads := by
    have htodo := hs.todo
    rw [hnone, List.length_nil] at htodo
    omega
  obtain ⟨u, hu⟩ := exists_thread_of_total_pos htotal
  have hslot := (hs.slot t).1 ((hs.threads t).undecided hd).hasSlot
  obtain ⟨role, stage, hdu⟩ := Thread.looping_of_inFlight hu
  cases role with
  | worker => exact ⟨u, stage, hdu, hu⟩
  | owner why' =>
    obtain rfl := hs.eq_of_hasSlot hslot ((hs.threads u).undecided hdu).hasSlot
    simp [Thread.inFlight, hd] at hu

/-- A client starts a worker, which finds nothing to do and falls asleep, and adds a
job. -/
def lateJob : List (Nat × Move Nat Unit) :=
  [(0, .request (.start 1))] ++ onward 0 3 ++ [(0, .spawn 1)] ++ onward 0 4 ++
    onward 1 4 ++
  [(0, .openRound)] ++ onward 0 4 ++ [(0, .add [5])] ++ onward 0 2

/-- The client rouses the worker, which takes the job, and falls asleep until the job
has ended. -/
def longJob : List (Nat × Move Nat Unit) :=
  lateJob ++ [(0, .rouse (some 1))] ++ onward 1 2 ++ [(0, .wait)] ++ onward 0 4

theorem not_owesAlarm_of_mem (hq : ∀ th ∈ p.threads, ¬ th.OwesAlarm) (u : Nat) :
    ¬ (p.thread u).OwesAlarm := by
  rcases thread_mem_or_default p u with hu | hu
  · exact hq _ hu
  · simp [hu, Thread.OwesAlarm, Thread.Heralds]

theorem worker_busy_with_longJob :
    Reached 1 (played 1 longJob).2 (played 1 longJob).1 ∧
    ((played 1 longJob).1.thread 0).duty = .looping (.owner .waiting) .asleep ∧
    ∃ u stage, ((played 1 longJob).1.thread u).duty = .looping .worker stage ∧
      0 < ((played 1 longJob).1.thread u).inFlight := by
  have hr : Reached 1 (played 1 longJob).2 (played 1 longJob).1 :=
    .of_played (by decide +kernel)
  have hd : ((played 1 longJob).1.thread 0).duty = .looping (.owner .waiting) .asleep :=
    rfl
  have hthreads : (played 1 longJob).1.threads =
      [⟨.looping (.owner .waiting) .asleep, none, some { added := 1 }⟩,
        ⟨.looping .worker (.executing (.start [5])), none, none⟩] := rfl
  have hquiet : ∀ u, ¬ ((played 1 longJob).1.thread u).OwesAlarm :=
    not_owesAlarm_of_mem (by simp [hthreads, Thread.OwesAlarm, Thread.Heralds])
  exact ⟨hr, hd, (Reached.worker_busy_of_opener_asleep hr hd hquiet).2.2⟩

/-! ## One sleeper for one job -/

namespace Thread

/-- The thread is a worker that is about to look for work, with nothing else to do
first. -/
def isAlert (th : Thread J) : Bool :=
  match th.duty with
  | .looping .worker .entering => true
  | .looping .worker .taking => true
  | .looping .worker .waking => true
  | _ => false

/-- The thread added one job, and has yet to rouse one sleeper. -/
def owesCall (th : Thread J) : Bool :=
  match th.duty with
  | .rousing false => true
  | _ => false

/-- How many of the jobs that wait the thread answers for. -/
def attention (th : Thread J) : Nat := th.isAlert.toNat + th.owesCall.toNat

theorem attention_le_roused (th : Thread J) : th.attention ≤ th.roused.attention := by
  unfold Thread.roused
  split
  · rename_i role hd
    cases role <;> simp [attention, isAlert, owesCall, hd]
  · exact Nat.le_refl _

end Thread

theorem Wake.attention_le {w : Wake} (hw : w.Fits p) (u : Nat) :
    (p.thread u).attention ≤ (w.touch u (p.thread u)).attention := by
  cases w with
  | nobody => exact Nat.le_refl _
  | everyone => exact Thread.attention_le_roused _
  | one sleeper =>
    simp only [touch]
    split
    · exact Thread.attention_le_roused _
    · exact Nat.le_refl _
  | newborn v =>
    simp only [touch]
    split
    · rename_i huv
      have hv : p.thread v = {} := hw
      rw [huv, hv]
      exact Nat.zero_le _
    · exact Nat.le_refl _

theorem Shift.owesAlarm {l : Ledger J} {s : Option Nat} {th : Thread J}
    (h : Shift t l s th m o) (ho : th.OwesAlarm) :
    o.thread.OwesAlarm ∨ o.wake = .everyone := by
  cases h with
  | still => exact .inl ho
  | clerical _ hc => exact .inl (ho.imp_right fun h => .inl (h.resolve_right hc))
  | configure hc =>
    exact .inl (ho.imp_right fun h => .inl (h.resolve_right (by simp [hc])))
  | spawn hc => exact .inl (ho.imp_right fun h => .inl (h.resolve_right (by simp [hc])))
  | flag => exact .inl (.inr (.inr rfl))
  | alarm | rouseAll | announce => exact .inr rfl
  | retell => exact .inl ho
  | seize _ hd =>
    have hcall : th.call = some (.stopping .rousing) := by
      rcases hd with hd | hd <;> simpa [Thread.OwesAlarm, Thread.Heralds, hd] using ho
    exact .inl (.inr (.inr hcall))
  | opened hd | submit hd | answer hd | conclude hd | reset hd | release hd | knock hd
  | rouseOne hd | engage hd | dismiss hd | enter hd | quit hd | sleep hd | stir hd
  | wake hd | work hd | finish hd | take hd | drain hd | report hd | leave hd | push hd =>
    have hcall : th.call = some (.stopping .rousing) := by
      simpa [Thread.OwesAlarm, Thread.Heralds, hd] using ho
    exact .inl (.inr (.inr hcall))

theorem Shift.not_asleep_of_everyone {l : Ledger J} {s : Option Nat} {th : Thread J}
    (h : Shift t l s th m o) (hw : o.wake = .everyone) (role : Role) :
    o.thread.duty ≠ .looping role .asleep := by
  cases h with
  | alarm => exact Thread.asleep_of_roused
  | rouseAll | announce => simp
  | _ => cases hw

theorem Shift.shuttingDown {l : Ledger J} {s : Option Nat} {th : Thread J}
    (h : Shift t l s th m o) (hf : o.ledger.shuttingDown = false) :
    l.shuttingDown = false := by
  cases h with
  | flag => cases hf
  | _ => exact hf

theorem Shift.of_one {l : Ledger J} {s : Option Nat} {th : Thread J}
    (h : Shift t l s th m o) {sleeper : Option Nat} (hw : o.wake = .one sleeper) :
    th.duty = .rousing false ∧ o.ledger = l ∧ th.attention = 1 ∧
    o.thread.attention = 0 := by
  cases h with
  | rouseOne hd =>
    exact ⟨hd, rfl, by simp [Thread.attention, Thread.isAlert, Thread.owesCall, hd], rfl⟩
  | _ => cases hw

theorem Shift.attention {l : Ledger J} {s : Option Nat} {th : Thread J}
    (h : Shift t l s th m o) (hf : l.shuttingDown = false) (ho : ¬ o.thread.OwesAlarm)
    (hw : ∀ sleeper, o.wake ≠ .one sleeper) :
    o.ledger.pending = [] ∨
      o.ledger.pending.length + th.attention ≤ l.pending.length + o.thread.attention := by
  cases h with
  | still | clerical | configure | flag | spawn | retell => exact .inr (Nat.le_refl _)
  | alarm => exact .inr (Nat.add_le_add_left (Thread.attention_le_roused th) _)
  | rouseOne => exact absurd rfl (hw _)
  | sleep _ _ noWork => exact .inl noWork
  | quit _ flag => simp [hf] at flag
  | @push jobs hd =>
    have hone : jobs.length = 1 := by
      by_contra hne
      exact ho (.inl (by simpa using hne))
    refine .inr ?_
    simp [Thread.attention, Thread.isAlert, Thread.owesCall, hd, hone]
  | @take role hd _ work =>
    have hpos := List.length_pos_iff.2 (Ledger.batch_ne_nil work)
    have hlen : l.batch.length + l.take.pending.length = l.pending.length := by
      rw [← List.length_append, Ledger.batch_append_pending_take]
    cases role <;> simp [Thread.attention, Thread.isAlert, Thread.owesCall, hd] <;> omega
  | @report role tally hd =>
    by_cases hz : l.todo - tally.executed = 0 <;> cases role <;>
      simp [Thread.attention, Thread.isAlert, Thread.owesCall, hd, hz]
  | seize _ hd =>
    rcases hd with hd | hd <;>
      simp [Thread.attention, Thread.isAlert, Thread.owesCall, hd]
  | @enter role hd | @stir role hd | @wake role hd | @work role _ _ _ _ hd
  | @finish role _ hd | @announce role hd | @leave role _ hd =>
    cases role <;>
      simp [Thread.attention, Thread.isAlert, Thread.owesCall, hd, afterLoop,
        Ledger.enter, Ledger.wakeUp, Ledger.leave]
  | opened hd | submit hd | answer hd | conclude hd | reset hd | release hd | knock hd
  | rouseAll hd | engage hd | dismiss hd | drain hd =>
    simp [Thread.attention, Thread.isAlert, Thread.owesCall, hd, Ledger.openRound,
      Ledger.closeRound]

/-- While a worker sleeps and nobody owes a call to all sleepers, each job that waits is
answered for: by a worker about to look, or by a call that one sleeper is owed. -/
def Attended (p : Pool J) : Prop :=
  p.ledger.shuttingDown = false → (∀ u, ¬ (p.thread u).OwesAlarm) →
    (∃ u, (p.thread u).duty = .looping .worker .asleep) →
      p.ledger.pending.length ≤ total Thread.attention p.threads

theorem Turn.total_attention (ht : Turn p u q es o) :
    total Thread.attention p.threads + o.thread.attention ≤
      total Thread.attention q.threads + (p.thread u).attention := by
  rw [← ht.self]
  refine total_change_le rfl ?_
  intro w hw
  rw [ht.others w hw]
  exact Wake.attention_le ht.fits w

/-- Only a worker can be the sleeper that is called: who calls is the opener of the
round. -/
theorem Pool.Sound.worker_of_asleep (hp : p.Sound)
    (hd : (p.thread u).duty = .rousing false) {w : Nat}
    (hw : (p.thread w).isAsleep = true) :
    (p.thread w).duty = .looping .worker .asleep := by
  obtain ⟨role, hdw⟩ := Thread.exists_of_isAsleep hw
  cases role with
  | worker => exact hdw
  | owner why =>
    have hu : (p.thread u).Undecided := by
      have hs := hp.threads u
      simpa only [Thread.Sound, hd] using hs
    have hslot := (hp.slot u).1 hu.hasSlot
    obtain rfl := hp.eq_of_hasSlot hslot ((hp.threads w).undecided hdw).hasSlot
    rw [hd] at hdw
    cases hdw

/-- A single call that finds a sleeper hands the attention of the caller on to a
worker. -/
theorem Turn.total_attention_of_one (ht : Turn p u q es o)
    (hs : Shift u p.ledger p.slot (p.thread u) m o) (hp : p.Sound) {w : Nat}
    (hw : o.wake = .one (some w)) :
    total Thread.attention p.threads ≤ total Thread.attention q.threads := by
  obtain ⟨hd, _, hone, hzero⟩ := hs.of_one hw
  have hfits := ht.fits
  rw [hw] at hfits
  have hdw := hp.worker_of_asleep hd hfits
  have hne : u ≠ w := by
    rintro rfl
    rw [hd] at hdw
    cases hdw
  -- Two threads change, so the count is taken in between, with the sleeper roused.
  have hroused : total Thread.attention p.threads + 1 ≤
      total Thread.attention (p.setThread w (p.thread w).roused).threads := by
    have hle := total_change_le (f := Thread.attention) (p := p)
      (q := p.setThread w (p.thread w).roused) (t := w) rfl fun v hv =>
        Nat.le_of_eq (by rw [thread_setThread_of_ne _ hv])
    have hbefore : (p.thread w).attention = 0 := by
      simp [Thread.attention, Thread.isAlert, Thread.owesCall, hdw]
    have hafter : (p.thread w).roused.attention = 1 := by
      simp [Thread.attention, Thread.isAlert, Thread.owesCall, Thread.roused, hdw]
    rw [thread_setThread_self, hbefore, hafter] at hle
    exact hle
  have hcaller := total_change_le (f := Thread.attention)
    (p := p.setThread w (p.thread w).roused) (q := q) (t := u) rfl fun v hv => by
      refine Nat.le_of_eq ?_
      rw [ht.others v hv, hw, thread_setThread, Wake.touch]
      by_cases hvw : v = w
      · rw [if_pos hvw, if_pos (by rw [hvw]), hvw]
      · rw [if_neg hvw, if_neg (by simpa using Ne.symm hvw)]
  rw [thread_setThread_of_ne _ hne, hone, ht.self, hzero] at hcaller
  omega

theorem Attended.turn (ha : Attended p) (hp : p.Sound) (hs : Turns p u m q es) :
    Attended q := by
  obtain ⟨o, hs, ht⟩ := hs
  rintro hflag hquiet ⟨w, hasleep⟩
  rw [ht.ledger] at hflag ⊢
  have hself := hquiet u
  rw [ht.self] at hself
  have hwake : o.wake ≠ .everyone := by
    intro hall
    by_cases hwu : w = u
    · rw [hwu, ht.self] at hasleep
      exact hs.not_asleep_of_everyone hall _ hasleep
    · exact (ht.asleep_before hwu hasleep).2 hall
  have hquiet' : ∀ v, ¬ (p.thread v).OwesAlarm := by
    intro v hv
    by_cases hvu : v = u
    · rw [hvu] at hv
      exact (hs.owesAlarm hv).elim hself hwake
    · refine hquiet v ?_
      rwa [ht.same_iff Thread.owesAlarm_roused
        (by simp [Thread.OwesAlarm, Thread.Heralds]) hvu]
  -- A worker that falls asleep has seen that nothing waits.
  have hbefore : (p.thread w).duty = .looping .worker .asleep ∨
      o.ledger.pending = [] := by
    by_cases hwu : w = u
    · rw [hwu, ht.self] at hasleep
      obtain ⟨hor, hpending, _⟩ := hs.of_asleep hasleep
      rw [hwu, hpending]
      exact hor.imp_right And.left
    · exact .inl (ht.asleep_before hwu hasleep).1
  rcases hbefore with hasleep' | hnone
  · have hle := ha (hs.shuttingDown hflag) hquiet' ⟨w, hasleep'⟩
    cases hone : o.wake with
    | one sleeper =>
      cases sleeper with
      | none =>
        have hfits := ht.fits
        rw [hone] at hfits
        have hawake := hfits w
        simp [Thread.isAsleep, hasleep'] at hawake
      | some v =>
        have htotal := ht.total_attention_of_one hs hp hone
        rw [(hs.of_one hone).2.1]
        omega
    | nobody | everyone | newborn =>
      have htotal := ht.total_attention
      rcases hs.attention (hs.shuttingDown hflag) hself (by simp [hone])
        with hnone | hstep
      · rw [hnone]
        exact Nat.zero_le _
      · omega
  · rw [hnone]
    exact Nat.zero_le _

theorem Reached.attended (hr : Reached n h p) : Attended p :=
  hr.induct (C := fun _ p => Attended p) (fun _ _ ⟨u, hd⟩ => by cases hd) fun hp ha ht =>
    ha.turn hp ht

theorem Pool.attention_eq_zero (halert : ∀ u, (p.thread u).isAlert = false)
    (hcall : ∀ u, (p.thread u).owesCall = false) :
    total Thread.attention p.threads = 0 := by
  apply total_eq_zero
  intro th hth
  obtain ⟨u, rfl⟩ := exists_thread_of_mem hth
  simp [Thread.attention, halert u, hcall u]

/-- While a worker sleeps and nobody owes a call to all sleepers, no more jobs wait than
there are workers about to look for work and calls that one sleeper is owed. So if all
workers sleep and no call is owed at all, nothing waits. -/
theorem Reached.pending_attended (hr : Reached n h p)
    (hrunning : p.ledger.shuttingDown = false) (hquiet : ∀ u, ¬ (p.thread u).OwesAlarm)
    (hasleep : (p.thread t).duty = .looping .worker .asleep) :
    p.ledger.pending.length ≤
      p.threads.countP Thread.isAlert + p.threads.countP Thread.owesCall ∧
    ((∀ u stage, (p.thread u).duty = .looping .worker stage → stage = .asleep) →
      (∀ u, (p.thread u).owesCall = false) → p.ledger.pending = []) := by
  have hle := hr.attended hrunning hquiet ⟨t, hasleep⟩
  have hcount : total Thread.attention p.threads =
      p.threads.countP Thread.isAlert + p.threads.countP Thread.owesCall := by
    rw [← total_toNat, ← total_toNat, ← total_add]
    rfl
  refine ⟨hcount ▸ hle, fun hall hnone => ?_⟩
  have halert (u : Nat) : (p.thread u).isAlert = false := by
    unfold Thread.isAlert
    split
    · rename_i hd
      cases hall u _ hd
    · rename_i hd
      cases hall u _ hd
    · rename_i hd
      cases hall u _ hd
    · rfl
  have hzero := attention_eq_zero halert hnone
  exact List.eq_nil_of_length_eq_zero (by omega)

theorem lateJob_attended :
    Reached 1 (played 1 lateJob).2 (played 1 lateJob).1 ∧
    ((played 1 lateJob).1.thread 1).duty = .looping .worker .asleep ∧
    (played 1 lateJob).1.ledger.pending = [5] ∧
    [5].length ≤ (played 1 lateJob).1.threads.countP Thread.isAlert +
      (played 1 lateJob).1.threads.countP Thread.owesCall := by
  have hr : Reached 1 (played 1 lateJob).2 (played 1 lateJob).1 :=
    .of_played (by decide +kernel)
  have hd : ((played 1 lateJob).1.thread 1).duty = .looping .worker .asleep := rfl
  have hthreads : (played 1 lateJob).1.threads =
      [⟨.rousing false, none, some { added := 1 }⟩,
        ⟨.looping .worker .asleep, none, none⟩] := rfl
  have hquiet : ∀ u, ¬ ((played 1 lateJob).1.thread u).OwesAlarm :=
    not_owesAlarm_of_mem (by simp [hthreads, Thread.OwesAlarm, Thread.Heralds])
  exact ⟨hr, hd, rfl, (Reached.pending_attended hr rfl hquiet hd).1⟩

end CheckRounds
