import CheckRounds.Proofs.Pool.Progress
import Mathlib.Logic.Relation
/-!
The locks are taken in one order, and nobody waits in a circle.

A pool has three locks: its slot, its roster and its ledger, and they are taken in this
order. The code of jobs runs without the roster and the ledger, and so does the wait for
workers. So who waits for a lock, or for a worker to finish, waits for a thread that
waits for something further down the order (`Pool.WaitsFor.waitLevel_lt`), unless a
client opens a second round while it has one open.
-/

namespace CheckRounds

open Pool

variable {J E : Type} {n t u : Nat} {h : List (Moment J E)} {m : Move J E}
  {es : List (Event J E)} {p q : Pool J}

/-! ## Who has a lock, and who wants one -/

inductive Mutex where
  | slot
  | roster
  | ledger
  deriving DecidableEq

def Mutex.rank : Mutex → Nat
  | slot => 0
  | roster => 1
  | ledger => 2

def Pool.holder (p : Pool J) : Mutex → Option Nat
  | .slot => p.slot
  | .roster => p.rosterLock
  | .ledger => p.ledgerLock

/-- Thread `t` waits for the lock, or is about to take it. -/
def Pool.Wants (p : Pool J) (t : Nat) : Mutex → Prop
  | .slot => (p.thread t).need = .freeSlot
  | .roster =>
    (p.thread t).need = .freeRoster ∨ (p.thread t).need = .roster ∧ p.rosterLock ≠ some t
  | .ledger =>
    (p.thread t).need = .freeLedger ∨ (p.thread t).need = .ledger ∧ p.ledgerLock ≠ some t

/-- The thread waits for workers to finish. -/
def Thread.joins (th : Thread J) : Bool := th.call.any Call.joins

/-- What `t` waits for is with the other thread: a lock, or its end. -/
inductive Pool.WaitsFor (p : Pool J) (t : Nat) : Nat → Prop where
  | lock {l u} (wants : p.Wants t l) (held : p.holder l = some u) : WaitsFor p t u
  | join {w} (need : (p.thread t).need = .finish w)
      (runs : (p.thread w).duty ≠ .finished) :
      WaitsFor p t w

/-! ## The code of jobs runs without locks -/

/-- A job is called, goes on and is released only by a thread that carries out a batch,
and has no call under way. -/
theorem Pool.executing_of_work {d : Deed E} (h : p.step t (.work d) = some (q, es)) :
    (p.thread t).call = none ∧
    ∃ role x, (p.thread t).duty = .looping role (.executing x) := by
  cases hc : (p.thread t).call with
  | some c => cases callStep_of_step hc h
  | none =>
    cases soloStep_of_step hc h with
    | goesOn _ hd step =>
      cases step
      exact ⟨rfl, _, _, hd⟩

theorem Pool.need_of_work {d : Deed E} (h : p.step t (.work d) = some (q, es)) :
    (p.thread t).need = .impulse ∨ (p.thread t).need = .nothing := by
  obtain ⟨hc, role, x, hd⟩ := executing_of_work h
  rw [need_of_looping hc hd, LoopStage.need]
  split <;> simp

theorem Pool.step_work_eq_none
    (hn : (p.thread t).need ≠ .impulse ∧ (p.thread t).need ≠ .nothing) (d : Deed E) :
    p.step t (.work d) = none := by
  cases hstep : p.step t (.work d) with
  | none => rfl
  | some r =>
    obtain ⟨q, es⟩ := r
    exact absurd (need_of_work hstep) (by simp [hn])

theorem Pool.step_work_of_call {c : Call} (hc : (p.thread t).call = some c) (d : Deed E) :
    p.step t (.work d) = none := by
  cases hstep : p.step t (.work d) with
  | none => rfl
  | some result => cases callStep_of_step hc hstep

/-- Who has the ledger is neither in a job nor in a wait for workers, and wants no
lock. -/
theorem Pool.Locked.of_ledger (hl : p.Locked) (ht : p.ledgerLock = some t) :
    (∀ d : Deed E, p.step t (.work d) = none) ∧ (p.thread t).joins = false ∧
    ∀ l, ¬ p.Wants t l := by
  have hneed := hl.ledger t ht
  refine ⟨step_work_eq_none (by simp [hneed]), ?_, fun l => ?_⟩
  · rw [Thread.joins, Option.any_eq_false]
    intro c hc
    rw [Thread.need_of_call hc] at hneed
    by_contra hjoins
    obtain ⟨left, count, rfl⟩ := Call.eq_joining_of_joins (by simpa using hjoins)
    cases left <;> cases hneed
  · cases l <;> simp [Wants, hneed, ht]

/-- Who has the roster is neither in a job nor in a wait for workers, and wants the
ledger at most. -/
theorem Pool.Locked.of_roster (hl : p.Locked) (ht : p.rosterLock = some t) :
    (∀ d : Deed E, p.step t (.work d) = none) ∧ (p.thread t).joins = false ∧
      ∀ l, p.Wants t l → l = .ledger := by
  obtain ⟨c, hc, hjoins, hneed⟩ := Thread.call_of_roster (hl.roster t ht)
  rw [← Thread.need_of_call hc] at hneed
  refine ⟨step_work_of_call hc, by simp [Thread.joins, hc, hjoins], fun l hw => ?_⟩
  rcases hneed with hneed | hneed | hneed <;> cases l <;> simp_all [Wants]

/-! ## The order -/

theorem CallStep.slot {c : Call} (h : CallStep p t c m q es) : q.slot = p.slot := by
  cases h <;> rfl

theorem Shift.slot_free {l : Ledger J} {s : Option Nat} {th : Thread J} {o : Upshot J E}
    (h : Shift t l s th m o) (hs : s ≠ some t) (ho : o.slot = some t) :
    th.duty = .client ∨ th.duty = .opening .slot := by
  cases h with
  | seize _ hd => exact hd
  | release => cases ho
  | _ => exact absurd ho hs

/-- A lock that a thread takes is one that it wanted; only a client takes the slot
without waiting. -/
theorem Pool.wants_of_taken (hstep : p.step t m = some (q, es)) {l : Mutex}
    (hbefore : p.holder l ≠ some t) (hafter : q.holder l = some t) :
    p.Wants t l ∨ (p.thread t).need = .impulse := by
  cases l with
  | ledger =>
    cases ledgerGrip_of_step hstep with
    | take need free => exact .inl (.inr ⟨need, by simp [free]⟩)
    | use _ _ given => cases given.symm.trans hafter
    | wake need => exact .inl (.inl need)
    | keep _ kept => exact absurd (kept.symm.trans hafter) hbefore
  | roster =>
    cases hc : (p.thread t).call with
    | none =>
      exact absurd ((soloGrip_of_step hc hstep).rosterLock.symm.trans hafter) hbefore
    | some c =>
      have hneed := Thread.need_of_call hc
      cases callStep_of_step hc hstep with
      | lockRoster need free => exact .inl (.inr ⟨hneed.trans need, by simp [free]⟩)
      | enterStart | enterStop => exact .inl (.inl hneed)
      | countWorkers | count | endStart | collectNone | collect => cases hafter
      | _ => exact absurd hafter hbefore
  | slot =>
    cases hc : (p.thread t).call with
    | some c => exact absurd ((callStep_of_step hc hstep).slot.symm.trans hafter) hbefore
    | none =>
      obtain ⟨o, hs, ht⟩ := turns_of_step hstep
      rcases hs.slot_free hbefore (ht.slot.symm.trans hafter) with hd | hd
      · exact .inr (by rw [Thread.need_of_duty hc, hd, Duty.need])
      · exact .inl (by rw [Wants, Thread.need_of_duty hc, hd, Duty.need])

/-- A lock is taken only by a thread that has none of those that come later. -/
theorem Pool.Locked.rank_lt (hl : p.Locked) (hstep : p.step t m = some (q, es))
    {l l' : Mutex} (hbefore : p.holder l' ≠ some t) (hafter : q.holder l' = some t)
    (hhas : p.holder l = some t) :
    l.rank < l'.rank := by
  have htaken := wants_of_taken hstep hbefore hafter
  cases l with
  | slot =>
    cases l' with
    | slot => exact absurd hhas hbefore
    | roster | ledger => decide
  | roster =>
    rcases htaken with hw | hidle
    · obtain rfl := (hl.of_roster (E := E) hhas).2.2 l' hw
      decide
    · obtain ⟨c, hc, _, _⟩ := Thread.call_of_roster (hl.roster t hhas)
      exact absurd ((Thread.need_of_call hc).symm.trans hidle) c.need_ne_impulse
  | ledger =>
    rcases htaken with hw | hidle
    · exact absurd hw ((hl.of_ledger (E := E) hhas).2.2 l')
    · cases (hl.ledger t hhas).symm.trans hidle

/-! ## No circle -/

/-- How far up the order the thing is that `t` waits for. -/
def Pool.waitLevel (p : Pool J) (t : Nat) : Nat :=
  match (p.thread t).need with
  | .freeSlot => 4
  | .finish _ => 3
  | .freeRoster => 2
  | .roster => if p.rosterLock = some t then 0 else 2
  | .freeLedger => 1
  | .ledger => if p.ledgerLock = some t then 0 else 1
  | .nothing => 0
  | .impulse => 0

/-- The thread waits for the slot that it has itself: it opens a round on top of its
own. -/
def Pool.OpensTwice (p : Pool J) (t : Nat) : Prop :=
  (p.thread t).need = .freeSlot ∧ p.slot = some t

theorem Pool.waitLevel_of_wants_roster (hw : p.Wants t .roster) : p.waitLevel t = 2 := by
  rcases hw with hneed | ⟨hneed, hlock⟩
  · simp [waitLevel, hneed]
  · simp [waitLevel, hneed, hlock]

theorem Pool.waitLevel_of_wants_ledger (hw : p.Wants t .ledger) : p.waitLevel t = 1 := by
  rcases hw with hneed | ⟨hneed, hlock⟩
  · simp [waitLevel, hneed]
  · simp [waitLevel, hneed, hlock]

theorem Pool.waitLevel_lt_four (hn : (p.thread t).need ≠ .freeSlot) :
    p.waitLevel t < 4 := by
  unfold waitLevel
  split <;> first | contradiction | split <;> decide | decide

theorem Pool.Locked.waitLevel_of_roster (hl : p.Locked) (ht : p.rosterLock = some t) :
    p.waitLevel t < 2 := by
  obtain ⟨c, hc, _, hneed⟩ := Thread.call_of_roster (hl.roster t ht)
  rw [← Thread.need_of_call hc] at hneed
  rcases hneed with hneed | hneed | hneed
  · simp [waitLevel, hneed]
  · simp only [waitLevel, hneed]
    split <;> decide
  · simp [waitLevel, hneed, ht]

theorem Pool.Locked.waitLevel_of_ledger (hl : p.Locked) (ht : p.ledgerLock = some t) :
    p.waitLevel t = 0 := by
  simp [waitLevel, hl.ledger t ht, ht]

theorem Duty.need_of_worker {d : Duty J}
    (h : (∃ stage, d = .looping .worker stage) ∨ d = .finished) :
    d.need = .nothing ∨ d.need = .ledger ∨ d.need = .freeLedger ∨ d.need = .impulse := by
  rcases h with ⟨stage, rfl⟩ | rfl
  · cases stage with
    | executing x =>
      rw [need, LoopStage.need]
      split <;> simp
    | _ => simp [need, LoopStage.need]
  · simp [need]

theorem Thread.call_of_finish {th : Thread J} {w : Nat} (h : th.need = .finish w) :
    ∃ c, th.call = some c ∧ w ∈ c.waitsFor := by
  cases hc : th.call with
  | some c => exact ⟨c, rfl, Call.mem_waitsFor_of_need ((need_of_call hc).symm.trans h)⟩
  | none =>
    rw [need_of_duty hc] at h
    cases hd : th.duty with
    | opening stage => cases stage <;> simp [hd, Duty.need] at h
    | looping role stage =>
      cases stage with
      | executing x =>
        rw [hd, Duty.need, LoopStage.need] at h
        split at h <;> cases h
      | _ => simp [hd, Duty.need, LoopStage.need] at h
    | _ => simp [hd, Duty.need] at h

/-- A worker that does not stop the workers itself waits for a lock at most, and not for
the slot. -/
theorem Pool.waitLevel_of_worker (hw : (p.thread t).IsWorker)
    (hstop : ∀ stage, (p.thread t).call ≠ some (.stopping stage)) :
    p.waitLevel t < 3 := by
  have hneed : (∃ w, (p.thread t).need = .finish w) ∨ (p.thread t).need = .freeSlot ∨
      p.waitLevel t < 3 := by
    unfold waitLevel
    split <;> first | simp_all; done | split <;> simp
  rcases hneed with ⟨w, hneed⟩ | hneed | hlt
  · obtain ⟨c, hc, hmem⟩ := Thread.call_of_finish hneed
    unfold Call.waitsFor at hmem
    split at hmem
    · exact absurd hc (hstop _)
    · cases hmem
  · cases hc : (p.thread t).call with
    | none =>
      rw [Thread.need_of_duty hc] at hneed
      rcases Duty.need_of_worker hw with hd | hd | hd | hd <;> cases hd.symm.trans hneed
    | some c =>
      rw [Thread.need_of_call hc] at hneed
      rcases c.need_cases with hn | hn | hn | hn | ⟨_, w, hn⟩ <;>
        cases hn.symm.trans hneed
  · exact hlt

/-- No job that runs on a worker stops the workers. The other calls of jobs are not
restricted, nor are the calls of the jobs that run on the opener of the round. -/
def Pool.JobsNeverStop (p : Pool J) : Prop :=
  ∀ w stage, (p.thread w).IsWorker → (p.thread w).call ≠ some (.stopping stage)

/-- Each wait is for a thread that waits for something further down the order, if for
anything. -/
theorem Pool.WaitsFor.waitLevel_lt (hl : p.Locked) (ho : p.Orderly)
    (hstop : p.JobsNeverStop) (hw : p.WaitsFor t u) :
    p.waitLevel u < p.waitLevel t ∨ p.OpensTwice u := by
  cases hw with
  | @lock l u wants held =>
    cases l with
    | slot =>
      by_cases htwice : (p.thread u).need = .freeSlot
      · exact .inr ⟨htwice, held⟩
      · have hlevel : p.waitLevel t = 4 := by
          rw [waitLevel, show (p.thread t).need = .freeSlot from wants]
        rw [hlevel]
        exact .inl (waitLevel_lt_four htwice)
    | roster =>
      rw [waitLevel_of_wants_roster wants]
      exact .inl (hl.waitLevel_of_roster held)
    | ledger =>
      rw [waitLevel_of_wants_ledger wants, hl.waitLevel_of_ledger held]
      exact .inl Nat.zero_lt_one
  | join need =>
    obtain ⟨c, hc, hmem⟩ := Thread.call_of_finish need
    have hworker : (p.thread u).IsWorker := by
      have hfits := ho.calls t c hc
      unfold Call.waitsFor at hmem
      split at hmem
      · exact hfits.2 u hmem
      · cases hmem
    have hlevel : p.waitLevel t = 3 := by rw [waitLevel, need]
    rw [hlevel]
    exact .inl (waitLevel_of_worker hworker fun stage => hstop u stage hworker)

/-- Who opens a round on top of its own waits for itself alone. -/
theorem Pool.WaitsFor.eq_of_opensTwice (hw : p.WaitsFor t u) (ht : p.OpensTwice t) :
    u = t := by
  obtain ⟨hneed, hslot⟩ := ht
  cases hw with
  | @lock l _ wants held =>
    cases l with
    | slot => exact Option.some.inj (held.symm.trans hslot)
    | roster | ledger => simp [Wants, hneed] at wants
  | join need => cases need.symm.trans hneed

theorem Pool.waitLevel_lt_of_transGen (hl : p.Locked) (ho : p.Orderly)
    (hstop : p.JobsNeverStop) (hw : Relation.TransGen p.WaitsFor t u) :
    p.waitLevel u < p.waitLevel t ∨ p.OpensTwice u := by
  induction hw with
  | single hw => exact hw.waitLevel_lt hl ho hstop
  | tail _ hw ih =>
    rcases ih with hlt | htwice
    · exact (hw.waitLevel_lt hl ho hstop).imp_left fun hlt' => Nat.lt_trans hlt' hlt
    · rw [hw.eq_of_opensTwice htwice]
      exact .inr htwice

/-- No thread that has the ledger runs the code of a job, waits for workers or wants
another lock; none that has the roster does so, except that it may want the ledger. So
the locks are taken in the order slot, roster, ledger. As long as no job on a worker
stops the workers, no circle of threads waits for locks or for the end of workers,
except for a client that opens a round while it has one open itself. -/
theorem Reached.locks_in_order (hr : Reached n h p) :
    (∀ t, p.ledgerLock = some t →
      (∀ d : Deed E, p.step t (.work d) = none) ∧ (p.thread t).joins = false ∧
        ∀ l, ¬ p.Wants t l) ∧
    (∀ t, p.rosterLock = some t →
      (∀ d : Deed E, p.step t (.work d) = none) ∧ (p.thread t).joins = false ∧
      ∀ l, p.Wants t l → l = .ledger) ∧
    (∀ t (m : Move J E) q es l l', p.step t m = some (q, es) → p.holder l' ≠ some t →
      q.holder l' = some t → p.holder l = some t → l.rank < l'.rank) ∧
    (p.JobsNeverStop → ∀ t, Relation.TransGen p.WaitsFor t t → p.OpensTwice t) := by
  have hl := hr.locked
  refine ⟨fun t => hl.of_ledger, fun t => hl.of_roster, ?_, ?_⟩
  · intro t m q es l l' hstep
    exact hl.rank_lt hstep
  · intro hstop t hcircle
    refine (waitLevel_lt_of_transGen hl hr.orderly hstop hcircle).resolve_left ?_
    exact Nat.lt_irrefl _

/-- Only clients stop the workers. -/
theorem Pool.jobsNeverStop_of_all
    (hp : (p.threads.all fun th =>
      th.duty matches .client || !(th.call matches some (.stopping _))) = true) :
    p.JobsNeverStop := by
  intro w stage hworker hcall
  rcases thread_mem_or_default p w with hw | hw
  · have hall := List.all_eq_true.1 hp _ hw
    rcases hworker with ⟨stage', hd⟩ | hd <;> simp [hd, hcall] at hall
  · rw [hw] at hcall
    cases hcall

/-- The worker is in a job, and asks for the metrics of its own pool. Meanwhile thread 2
stops the pool and waits for that worker, thread 3 has the roster to start more workers,
thread 4 wants to open a round, and the opener of the round has the ledger. -/
def busyLocks : List (Nat × Move Nat Unit) :=
  List.flatten [[(0, .request (.start 1))], onward 0 3, [(0, .spawn 1)], onward 0 4,
    [(0, .openRound)], onward 0 4, [(0, .add [7])], onward 0 2, [(0, .rouse none)],
    onward 1 4, [(1, .work .proceed)], [(2, .request .stop)], onward 2 5,
    [(1, .request .metrics)], [(3, .request (.start 1))], onward 3 1, [(4, .openRound)],
    [(0, .request .batchSize)], onward 0 1]

def busyLocksRun : Pool Nat × List (Moment Nat Unit) := played 1 busyLocks

theorem busyLocks_in_order :
    Reached 1 busyLocksRun.2 busyLocksRun.1 ∧
    busyLocksRun.1.WaitsFor 2 1 ∧ busyLocksRun.1.WaitsFor 1 3 ∧
    busyLocksRun.1.WaitsFor 3 0 ∧ busyLocksRun.1.WaitsFor 4 0 ∧
    (∀ l, busyLocksRun.1.Wants 3 l → l = .ledger) ∧ (∀ l, ¬ busyLocksRun.1.Wants 0 l) ∧
    ∀ t, ¬ Relation.TransGen busyLocksRun.1.WaitsFor t t := by
  have hr : Reached 1 busyLocksRun.2 busyLocksRun.1 := .of_played (by decide +kernel)
  obtain ⟨hledger, hroster, _, hcircle⟩ := Reached.locks_in_order hr
  have hstop : busyLocksRun.1.JobsNeverStop := jobsNeverStop_of_all (by decide +kernel)
  have hjob :
      (busyLocksRun.1.thread 1).duty = .looping .worker
      (.executing ⟨{}, .calling 7, []⟩) := rfl
  refine ⟨hr, .join rfl (by simp [hjob]), ?_, ?_, ?_, (hroster 3 rfl).2.2,
    (hledger 0 rfl).2.2, fun t ht => ?_⟩
  · exact .lock (l := .roster) (.inr ⟨rfl, by decide +kernel⟩) rfl
  · exact .lock (l := .ledger) (.inr ⟨rfl, by decide +kernel⟩) rfl
  · exact .lock (l := .slot) rfl rfl
  · obtain ⟨hneed, hslot⟩ := hcircle hstop t ht
    obtain rfl : 0 = t := Option.some.inj hslot
    cases hneed

end CheckRounds
