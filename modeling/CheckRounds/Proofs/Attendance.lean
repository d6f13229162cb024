import CheckRounds.Proofs.Accounting
import CheckRounds.Proofs.Pool.Handles
import Mathlib.Algebra.BigOperators.Group.Finset.Piecewise
/-!
The counts of the threads that take part are exact.

A thread is counted in when it enters the work loop and counted out when it leaves it,
and counted as idle from falling asleep until it has the ledger again, however it was
roused. So both counts can be read off the threads, neither falls below zero, and the
size of a batch is computed from the threads that there are. No worker leaves while the
pool is not being stopped, whatever comes of the jobs.
-/

namespace CheckRounds

open Pool

variable {J E : Type} {n t u w : Nat} {h k : List (Moment J E)} {m : Move J E}
  {es : List (Event J E)} {p q : Pool J} {o : Upshot J E}

/-! ## Who is counted -/

namespace Thread

theorem participates_of_duty {th : Thread J} {d : Duty J} (hd : th.duty = d) :
    th.participates = ({ duty := d } : Thread J).participates := by
  rw [← hd]
  rfl

theorem sleeps_of_duty {th : Thread J} {d : Duty J} (hd : th.duty = d) :
    th.sleeps = ({ duty := d } : Thread J).sleeps := by
  rw [← hd]
  rfl

theorem steady_participates : Steady fun th : Thread J => th.participates.toNat where
  idle := rfl
  newborn := rfl
  roused th := by
    rw [apply_roused (f := participates) fun _ _ hd => (participates_of_duty hd).symm]

/-- Who is roused is still on the way back from its sleep. -/
theorem sleeps_roused (th : Thread J) : th.roused.sleeps = th.sleeps :=
  apply_roused (fun _ _ hd => (sleeps_of_duty hd).symm) th

theorem steady_sleeps : Steady fun th : Thread J => th.sleeps.toNat where
  idle := rfl
  newborn := rfl
  roused th := by rw [sleeps_roused]

theorem participates_of_sleeps {th : Thread J} (h : th.sleeps = true) :
    th.participates = true := by
  unfold sleeps at h
  split at h
  · rename_i hd
    rw [participates_of_duty hd]
    rfl
  · rename_i hd
    rw [participates_of_duty hd]
    rfl
  · cases h

end Thread

theorem Shift.participants {l : Ledger J} {s : Option Nat} {th : Thread J}
    (h : Shift t l s th m o) (hle : th.participates.toNat ≤ l.participants) :
    o.ledger.participants + th.participates.toNat =
      l.participants + o.thread.participates.toNat := by
  cases h with
  | still | clerical | configure | flag | spawn | retell => rfl
  | alarm =>
    have hsame : th.roused.participates.toNat = th.participates.toNat :=
      Thread.steady_participates.roused th
    rw [← hsame]
    rfl
  | report hd =>
    rw [Thread.participates_of_duty hd]
    split <;> rfl
  | @leave role v hd =>
    rw [Thread.participates_of_duty hd] at hle ⊢
    have hcount : l.participants - 1 + 1 = l.participants := Nat.sub_add_cancel hle
    cases role <;> exact hcount
  | seize _ hd => rcases hd with hd | hd <;> rw [Thread.participates_of_duty hd] <;> rfl
  | enter hd | opened hd | submit hd | push hd | answer hd | conclude hd | reset hd
  | release hd | knock hd | rouseAll hd | rouseOne hd | engage hd | dismiss hd
  | quit hd | take hd | drain hd | sleep hd | stir hd | wake hd | work hd | finish hd
  | announce hd =>
    rw [Thread.participates_of_duty hd]
    rfl

theorem Shift.idle {l : Ledger J} {s : Option Nat} {th : Thread J}
    (h : Shift t l s th m o) (hle : th.sleeps.toNat ≤ l.idle) :
    o.ledger.idle + th.sleeps.toNat = l.idle + o.thread.sleeps.toNat := by
  cases h with
  | still | clerical | configure | flag | spawn | retell => rfl
  | alarm =>
    have hsame : th.roused.sleeps.toNat = th.sleeps.toNat :=
      Thread.steady_sleeps.roused th
    rw [← hsame]
    rfl
  | report hd =>
    rw [Thread.sleeps_of_duty hd]
    split <;> rfl
  | wake hd =>
    rw [Thread.sleeps_of_duty hd] at hle ⊢
    exact Nat.sub_add_cancel hle
  | @leave role v hd =>
    rw [Thread.sleeps_of_duty hd]
    cases role <;> rfl
  | seize _ hd => rcases hd with hd | hd <;> rw [Thread.sleeps_of_duty hd] <;> rfl
  | enter hd | opened hd | submit hd | push hd | answer hd | conclude hd | reset hd
  | release hd | knock hd | rouseAll hd | rouseOne hd | engage hd | dismiss hd
  | quit hd | take hd | drain hd | sleep hd | stir hd | work hd | finish hd
  | announce hd =>
    rw [Thread.sleeps_of_duty hd]
    rfl

/-! ## The counts in every state -/

/-- Both counts are those of the threads. -/
structure Counted (p : Pool J) : Prop where
  participants : p.ledger.participants = p.threads.countP Thread.participates
  idle : p.ledger.idle = p.threads.countP Thread.sleeps

theorem Counted.participates_le (hc : Counted p) (u : Nat) :
    (p.thread u).participates.toNat ≤ p.ledger.participants := by
  rw [hc.participants, ← total_toNat]
  exact thread_le_total (f := fun th => th.participates.toNat)
    Thread.steady_participates.idle u

theorem Counted.sleeps_le (hc : Counted p) (u : Nat) :
    (p.thread u).sleeps.toNat ≤ p.ledger.idle := by
  rw [hc.idle, ← total_toNat]
  exact thread_le_total (f := fun th => th.sleeps.toNat) Thread.steady_sleeps.idle u

theorem Counted.turn (hc : Counted p) (hs : Turns p t m q es) : Counted q := by
  obtain ⟨o, hs, ht⟩ := hs
  have hparticipants := hs.participants (hc.participates_le t)
  have hidle := hs.idle (hc.sleeps_le t)
  have hall := ht.total_threads Thread.steady_participates
  have hsleepers := ht.total_threads Thread.steady_sleeps
  rw [total_toNat, total_toNat, ← hc.participants] at hall
  rw [total_toNat, total_toNat, ← hc.idle] at hsleepers
  rw [← ht.ledger] at hparticipants hidle
  exact ⟨by omega, by omega⟩

theorem Reached.counted (hr : Reached n h p) : Counted p :=
  hr.induct (C := fun _ p => Counted p) ⟨rfl, rfl⟩ fun _ hc ht => hc.turn ht

theorem Counted.idle_le (hc : Counted p) : p.ledger.idle ≤ p.ledger.participants := by
  rw [hc.idle, hc.participants]
  exact List.countP_mono_left fun th _ => Thread.participates_of_sleeps

/-- A participant that is awake is one that is not idle. -/
theorem Counted.idle_lt (hc : Counted p) (hp : (p.thread u).participates = true)
    (hs : (p.thread u).sleeps = false) : p.ledger.idle + 1 ≤ p.ledger.participants := by
  let awake : Thread J → Bool := fun th => th.participates && !th.sleeps
  have hawake : 1 ≤ total (fun th => (awake th).toNat) p.threads := by
    have hu : (awake (p.thread u)).toNat = 1 := by simp [awake, hp, hs]
    rw [← hu]
    exact thread_le_total (f := fun th => (awake th).toNat) rfl u
  have hsplit : ∀ th ∈ p.threads,
      th.participates.toNat = th.sleeps.toNat + (awake th).toNat := by
    intro th _
    cases hth : th.sleeps with
    | false => simp [awake, hth]
    | true => simp [awake, hth, Thread.participates_of_sleeps hth]
  rw [hc.participants, hc.idle, ← total_toNat, ← total_toNat, total_congr hsplit,
    total_add]
  omega

/-! ## Who takes part -/

/-- The workers in the work loop were spawned. -/
theorem Reached.mem_workersSpawned (hr : Reached n h p) {stage : LoopStage J}
    (hd : (p.thread u).duty = .looping .worker stage) : u ∈ workersSpawned h := by
  induction hr generalizing stage with
  | nil => cases hd
  | snoc _ last ih =>
    rw [workersSpawned, collect_append, collect_singleton, List.mem_append]
    rcases (turns_of_step last).worker_before hd with ⟨_, hbefore⟩ | hspawned
    · exact .inl (ih hbefore)
    · exact .inr hspawned

/-- Who takes part was spawned as a worker, or has a round open. -/
theorem Reached.participant_cases (hr : Reached n h p)
    (hu : (p.thread u).participates = true) :
    u ∈ workersSpawned h ∨ p.slot = some u := by
  unfold Thread.participates at hu
  split at hu
  · cases hu
  · rename_i role stage _ hd
    cases role with
    | worker => exact .inl (hr.mem_workersSpawned hd)
    | owner why =>
      exact .inr ((hr.sound.slot u).1 ((hr.sound.threads u).undecided hd).hasSlot)
  · cases hu

theorem Reached.participants_le (hr : Reached n h p) :
    p.ledger.participants ≤ (workersSpawned h).length + 1 := by
  let present := (Finset.range p.threads.length).filter fun u =>
    (p.thread u).participates = true
  have hcount : p.ledger.participants = present.card := by
    rw [hr.counted.participants, ← total_toNat, total_eq_sum, Finset.card_filter]
    refine Finset.sum_congr rfl fun u _ => ?_
    cases (p.thread u).participates <;> rfl
  have hsub : present ⊆ insert (p.slot.getD 0) (workersSpawned h).toFinset := by
    intro u hu
    rw [Finset.mem_insert, List.mem_toFinset]
    rcases hr.participant_cases (Finset.mem_filter.1 hu).2 with hspawned | hslot
    · exact .inr hspawned
    · exact .inl (by rw [hslot]; rfl)
  calc p.ledger.participants = present.card := hcount
    _ ≤ (insert (p.slot.getD 0) (workersSpawned h).toFinset).card :=
      Finset.card_le_card hsub
    _ ≤ (workersSpawned h).toFinset.card + 1 := Finset.card_insert_le _ _
    _ ≤ (workersSpawned h).length + 1 := Nat.add_le_add_right (List.toFinset_card_le _) 1

/-! ## Who has left -/

/-- The thread is a worker that has left the work loop, or is about to. -/
def Thread.hasQuit (th : Thread J) : Bool :=
  match th.duty with
  | .looping .worker (.leaving _) => true
  | .finished => true
  | _ => false

theorem Thread.hasQuit_of_duty {th : Thread J} {d : Duty J} (hd : th.duty = d) :
    th.hasQuit = ({ duty := d } : Thread J).hasQuit := by
  rw [← hd]
  rfl

theorem Thread.hasQuit_roused (th : Thread J) : th.roused.hasQuit = th.hasQuit :=
  apply_roused (fun th role hd => by
    rw [hasQuit_of_duty hd]
    cases role <;> rfl) th

/-- A worker leaves only if it has seen the flag. -/
theorem Shift.hasQuit {l : Ledger J} {s : Option Nat} {th : Thread J}
    (h : Shift t l s th m o) (hq : o.thread.hasQuit = true) :
    th.hasQuit = true ∨ l.shuttingDown = true := by
  cases h with
  | still | clerical | configure | flag | spawn | retell => exact .inl hq
  | alarm => exact .inl ((Thread.hasQuit_roused th).symm.trans hq)
  | quit _ flag => exact .inr flag
  | @leave role v hd =>
    cases role with
    | worker => exact .inl (Thread.hasQuit_of_duty hd)
    | owner why => cases hq
  | @report role tally hd =>
    revert hq
    cases role <;> split <;> exact nofun
  | @enter role | @take role | @sleep role | @stir role | @wake role | @work role
  | @finish role | @announce role => cases role <;> cases hq
  | _ => cases hq

theorem Reached.shuttingDown_of_hasQuit (hr : Reached n h p)
    (hq : (p.thread u).hasQuit = true) :
    p.ledger.shuttingDown = true := by
  refine hr.induct (C := fun _ p => (p.thread u).hasQuit = true →
    p.ledger.shuttingDown = true) nofun ?_ hq
  intro h p t m q es _ ih ht hq
  have hkept := ht.shuttingDown
  obtain ⟨o, hs, hturn⟩ := ht
  by_cases hu : u = t
  · subst hu
    rw [hturn.self] at hq
    rcases hs.hasQuit hq with hbefore | hflag
    · exact hkept (ih hbefore)
    · exact hkept hflag
  · rw [hturn.same Thread.hasQuit_roused rfl hu] at hq
    exact hkept (ih hq)

/-- While the flag is not set, the workers that were started are in the work loop, and
are not about to leave it. -/
theorem Reached.worker_remains (hr : Reached n h p) (hf : p.ledger.shuttingDown = false)
    (hw : w ∈ workersSpawned h) :
    ∃ stage, (p.thread w).duty = .looping .worker stage ∧ ∀ v, stage ≠ .leaving v := by
  have hstays : (p.thread w).hasQuit = false := by
    rw [Bool.eq_false_iff]
    intro hq
    rw [hr.shuttingDown_of_hasQuit hq] at hf
    cases hf
  rcases hr.enrolled.workers w hw with ⟨stage, hd⟩ | hd
  · refine ⟨stage, hd, fun v hstage => ?_⟩
    rw [Thread.hasQuit_of_duty hd, hstage] at hstays
    cases hstays
  · rw [Thread.hasQuit_of_duty hd] at hstays
    cases hstays

/-! ## The counts are exact -/

/-- In every state, `participants` is the number of the threads in the work loop, of
which at most one is not among the workers that were spawned, and `idle` the number of
those of them that fell asleep and are not yet back. So a thread that takes a batch is
counted and not idle, which bounds the divisor of its share, and neither count is
lowered below zero. While the pool is not being stopped no worker leaves the loop,
whatever the jobs did. -/
theorem Reached.attendance_exact (hr : Reached n h p) :
    p.ledger.participants = p.threads.countP Thread.participates ∧
    p.ledger.idle = p.threads.countP Thread.sleeps ∧
    p.ledger.participants ≤ (workersSpawned h).length + 1 ∧
    p.ledger.idle ≤ p.ledger.participants ∧
    (∀ t (m : Move J E) q es role batch, p.step t m = some (q, es) →
      .took role batch ∈ es → p.ledger.idle ≤ p.ledger.participants - 1 ∧
      2 ≤ p.ledger.participants + p.ledger.idle + 1 ∧
      p.ledger.participants + p.ledger.idle + 1 ≤ 2 * p.ledger.participants) ∧
    (∀ u role, (p.thread u).duty = .looping role .waking → 1 ≤ p.ledger.idle) ∧
    (∀ u role v, (p.thread u).duty = .looping role (.leaving v) →
      1 ≤ p.ledger.participants) ∧
    (p.ledger.shuttingDown = false → ∀ w ∈ workersSpawned h,
      ∃ stage, (p.thread w).duty = .looping .worker stage ∧ ∀ v, stage ≠ .leaving v) := by
  have hc := hr.counted
  refine ⟨hc.participants, hc.idle, hr.participants_le, hc.idle_le, ?_, ?_, ?_,
    fun hf w => hr.worker_remains hf⟩
  · intro t m q es role batch hstep he
    obtain ⟨o, hs, ht⟩ := turns_of_step hstep
    obtain ⟨hd, _⟩ := hs.of_took (ht.events ▸ he)
    have hlt := hc.idle_lt (Thread.participates_of_duty hd) (Thread.sleeps_of_duty hd)
    omega
  · intro u role hd
    have hle := hc.sleeps_le u
    rw [Thread.sleeps_of_duty hd] at hle
    exact hle
  · intro u role v hd
    have hle := hc.participates_le u
    rw [Thread.participates_of_duty hd] at hle
    exact hle

/-- A client starts two workers, of which the second one falls asleep, and adds a job.
The first one has the ledger and is about to take the job; the sleeper has not been
roused. -/
def oneAsleep : List (Nat × Move Nat Unit) :=
  List.flatten [[(0, .request (.start 2))], onward 0 3, [(0, .spawn 1), (0, .spawn 2)],
    onward 0 4, onward 2 4,
    [(0, .openRound)], onward 0 4, [(0, .add [5])], onward 0 2, onward 1 3]

def oneAsleepRun : Pool Nat × List (Moment Nat Unit) := played 1 oneAsleep

theorem oneAsleep_counted :
    Reached 1 oneAsleepRun.2 oneAsleepRun.1 ∧
    oneAsleepRun.1.threads.countP Thread.participates = 2 ∧
    oneAsleepRun.1.threads.countP Thread.sleeps = 1 ∧
    oneAsleepRun.1.ledger.participants = 2 ∧ oneAsleepRun.1.ledger.idle = 1 ∧
    oneAsleepRun.1.ledger.idle ≤ oneAsleepRun.1.ledger.participants - 1 ∧
    ∀ w ∈ [1, 2], ∃ stage, (oneAsleepRun.1.thread w).duty = .looping .worker stage ∧
      ∀ v, stage ≠ .leaving v := by
  have hr : Reached 1 oneAsleepRun.2 oneAsleepRun.1 := .of_played (by decide +kernel)
  have hspawned : workersSpawned oneAsleepRun.2 = [1, 2] := by decide +kernel
  have htook : oneAsleepRun.1.step 1 (.advance : Move Nat Unit) =
      some (_, [.took .worker [5]]) := rfl
  obtain ⟨hparticipants, hidle, _, _, htakes, _, _, hstays⟩ := Reached.attendance_exact hr
  rw [hspawned] at hstays
  have htwo : oneAsleepRun.1.threads.countP Thread.participates = 2 := by decide +kernel
  have hone : oneAsleepRun.1.threads.countP Thread.sleeps = 1 := by decide +kernel
  exact ⟨hr, htwo, hone, hparticipants.trans htwo, hidle.trans hone,
    (htakes _ _ _ _ .worker [5] htook (by simp)).1, hstays rfl⟩

end CheckRounds
