import CheckRounds.Proofs.Attendance
import CheckRounds.Proofs.Pool.Trace
import CheckRounds.Proofs.WakeUp
/-!
What a snapshot of a pool shows.

A snapshot counts the roster and then reads the ledger, and gives the roster back in
between. So it is put together from two moments of the call. If no start and no stop
gets hold of the roster between them it is what the pool was at the second one
(`Reached.snapshot_between_reads`); otherwise it may show a pool that never was
(`snapshot_torn`).
-/

namespace CheckRounds

open Pool

variable {J E : Type} {n t u w : Nat} {h k : List (Moment J E)} {m : Move J E}
  {es : List (Event J E)} {p q x : Pool J} {o : Upshot J E} {r : Metrics}

/-! ## Without workers nobody sleeps -/

/-- Who falls asleep found nothing to take, and if it is the opener, a round that is not
drained. -/
theorem Shift.of_sleeps {l : Ledger J} {s : Option Nat} {th : Thread J}
    (h : Shift t l s th m o) (hq : o.thread.sleeps = true) :
    th.sleeps = true ∨
      ∃ role, th.duty = .looping role .taking ∧ l.pending = [] ∧
      (role ≠ .worker → l.todo ≠ 0) := by
  cases h with
  | still | clerical | configure | flag | spawn | retell => exact .inl hq
  | alarm => exact .inl ((Thread.sleeps_roused th).symm.trans hq)
  | sleep hd _ noWork undone => exact .inr ⟨_, hd, noWork, undone⟩
  | stir hd => exact .inl (Thread.sleeps_of_duty hd)
  | @report role tally hd =>
    revert hq
    split <;> simp [Thread.sleeps]
  | @leave role v hd => cases role <;> cases hq
  | _ => cases hq

theorem Reached.nobody_sleeps (hr : Reached n h p) (hn : workersSpawned h = [])
    (u : Nat) :
    (p.thread u).sleeps = false := by
  suffices hall : p.Unstaffed ∧ ∀ u, (p.thread u).sleeps = false from hall.2 u
  refine hr.induct
    (C := fun h p => workersSpawned h = [] →
      p.Unstaffed ∧ ∀ u, (p.thread u).sleeps = false) ?_ ?_ hn
  · intro _
    refine ⟨fun u stage hd => ?_, fun u => rfl⟩
    cases hd
  · intro h p t m q es hp ih hs hn
    simp only [workersSpawned, collect_append, collect_singleton,
      List.append_eq_nil_iff] at ih hn
    obtain ⟨hunstaffed, hawake⟩ := ih hn.1
    refine ⟨hs.unstaffed hn.2 hunstaffed, fun u => ?_⟩
    obtain ⟨o, hs, ht⟩ := hs
    by_cases hu : u = t
    · subst hu
      rw [ht.self, Bool.eq_false_iff]
      intro hq
      rcases hs.of_sleeps hq with hslept | ⟨role, hd, hnone, hundone⟩
      · cases hslept.symm.trans (hawake u)
      · cases role with
        | worker => exact hunstaffed u _ hd
        | owner why =>
          have hslot := ((hp.threads u).undecided hd).hasSlot
          have hidle : (p.thread u).inFlight = 0 := by simp [Thread.inFlight, hd]
          exact hundone (by simp) (hunstaffed.todo_eq_zero hp hslot hidle hnone)
    · exact (ht.same Thread.sleeps_roused rfl hu).trans (hawake u)

/-! ## What the roster and the ledger say together -/

/-- Workers are taken from the roster only after the flag was set. -/
theorem Reached.workersCollected_eq_nil (hr : Reached n h p)
    (hf : p.ledger.shuttingDown = false) :
    workersCollected h = [] := by
  induction hr with
  | nil => rfl
  | @snoc p q h t m es before last ih =>
    have hbefore : p.ledger.shuttingDown = false := by
      rw [Bool.eq_false_iff]
      intro hset
      cases ((turns_of_step last).shuttingDown hset).symm.trans hf
    rw [workersCollected, collect_append, collect_singleton, ← workersCollected,
      ih hbefore, List.nil_append]
    cases hc : (p.thread t).call with
    | none =>
      cases soloStep_of_step hc last with
      | begins => rfl
      | goesOn _ _ step => exact (step.frame hc).nothing Event.collectedWorkers_of_duty
    | some c =>
      have hcall := callStep_of_step hc last
      have hfits := (Reached.orderly before).calls t c hc
      cases hcall with
      | collect => cases hfits.flag.symm.trans hbefore
      | _ => rfl

/-- Nobody sleeps while the roster is empty and the flag is not set. -/
theorem Reached.idle_eq_zero (hr : Reached n h p) (hnobody : p.roster = [])
    (hf : p.ledger.shuttingDown = false) : p.ledger.idle = 0 := by
  have hspawned : workersSpawned h = [] := by
    rw [hr.enrolled.place, hr.workersCollected_eq_nil hf, hnobody]
    rfl
  rw [hr.counted.idle, List.countP_eq_zero]
  intro th hth
  obtain ⟨u, rfl⟩ := exists_thread_of_mem hth
  simp [hr.nobody_sleeps hspawned u]

/-! ## A snapshot of one moment -/

/-- The pool was in state `x` during the call of `t` that is under way in state `p`, and
`k` happened since. -/
structure Amid (n t : Nat) (h k : List (Moment J E)) (x p : Pool J) : Prop where
  before : Reached n h x
  after : Run x k p
  underWay : (x.thread t).call ≠ none
  unanswered : ∀ a, (t, .returned a) ∉ events k

/-- The record is what the pool was at a moment of the call that `t` has under way, at
which no start and no stop had the roster. -/
def PointInTime (n t : Nat) (h : List (Moment J E)) (p : Pool J) (r : Metrics) : Prop :=
  ∃ h₀ k x, h = h₀ ++ k ∧ Amid n t h₀ k x p ∧ x.Calm ∧ x.Shows x.roster.length r

/-- A pool that is being stopped has no workers at such a moment, and without workers
and the flag nobody sleeps. -/
theorem PointInTime.consistent (hr : PointInTime n t h p r) :
    (r.shuttingDown = true → r.workerThreads = 0) ∧
    (r.workerThreads = 0 → r.shuttingDown = false → r.idle = 0) := by
  obtain ⟨h₀, k, x, _, hamid, hcalm, hshows⟩ := hr
  rw [hshows.shuttingDown, hshows.workerThreads, hshows.idle]
  refine ⟨fun hf => ?_, fun hnobody hf => ?_⟩
  · exact congrArg List.length (hamid.before.roster_eq_nil_of_calm hcalm hf)
  · exact hamid.before.idle_eq_zero (List.eq_nil_of_length_eq_zero hnobody) hf

/-! ## The two reads -/

theorem Amid.refl (hr : Reached n h p) (hc : (p.thread t).call ≠ none) :
    Amid n t h [] p p :=
  ⟨hr, .nil p, hc, by simp [events]⟩

theorem Amid.snoc (ha : Amid n t h k x p) (hstep : p.step u m = some (q, es))
    (hsilent : u = t → ∀ a, .returned a ∉ es) : Amid n t h (k ++ [⟨u, m, es⟩]) x q where
  before := ha.before
  after := .snoc ha.after hstep
  underWay := ha.underWay
  unanswered a he := (mem_events_concat.1 he).elim (ha.unanswered a) fun ⟨hu, he⟩ =>
    hsilent hu.symm a he

/-- A count of the workers for a snapshot was made during the call, while no start and
no stop had the roster. -/
theorem Reached.counted_amid (hr : Reached n h p)
    (hc : (p.thread t).call = some (.measuring (some w))) :
    ∃ h₀ k x, h = h₀ ++ k ∧ Amid n t h₀ k x p ∧ x.Calm ∧ x.roster.length = w := by
  induction hr with
  | nil => cases hc
  | @snoc p q h u m es before last ih =>
    -- If the count was there before this step, so was the call, and it has not returned
    -- with this step.
    have goOn (hbefore : (p.thread t).call = some (.measuring (some w)))
        (hsilent : u = t → ∀ a, .returned a ∉ es) : ∃ h₀ k x,
        h ++ [⟨u, m, es⟩] = h₀ ++ k ∧
        Amid n t h₀ k x q ∧ x.Calm ∧ x.roster.length = w := by
      obtain ⟨h₀, k, x, rfl, hamid, hcalm, hcount⟩ := ih hbefore
      exact ⟨h₀, _, x, List.append_assoc _ _ _, hamid.snoc last hsilent, hcalm, hcount⟩
    by_cases hu : u = t
    · subst hu
      cases hbefore : (p.thread u).call with
      | none =>
        have hfresh := ((soloGrip_of_step hbefore last).begun _ hc).1
        cases hfresh
      | some c =>
        cases callStep_of_step hbefore last with
        | lockLedger | lockRoster =>
          exact goOn hc (by simp)
        | count mine =>
          have hw : p.roster.length = w := by
            rw [call_setCall] at hc
            simpa using hc
          have hlocked := Reached.locked before
          refine ⟨h, [_], p, rfl,
            (Amid.refl before (by simp [hbefore])).snoc last (by simp), ?_, hw⟩
          intro v
          rw [Bool.eq_false_iff]
          intro hkeeps
          obtain rfl := Option.some.inj (mine.symm.trans (hlocked.kept v hkeeps))
          cases (Thread.keepsRoster_of_call hbefore).symm.trans hkeeps
        | configure | readBatchSize | countWorkers | measure | endStart | collectNone
        | endStop =>
          rw [call_setCall] at hc
          cases hc
        | _ =>
          rw [call_setCall] at hc
          simp at hc
    · obtain ⟨o, _, ht⟩ := turns_of_step last
      rw [ht.same Thread.call_roused rfl (Ne.symm hu)] at hc
      exact goOn hc fun hut => absurd hut hu

/-- The roster does not change while no start and no stop has it. -/
theorem Run.roster_of_calm (hr : Run x k p)
    (hcalm : ∀ k₁ k₂ y, k = k₁ ++ k₂ → Run x k₁ y → y.Calm) :
    p.roster = x.roster := by
  induction hr with
  | nil => rfl
  | @snoc p q k t m es before last ih =>
    have hsame := (untouched_of_step last (hcalm k _ p rfl before t)).2
    refine hsame.trans (ih fun k₁ k₂ y hk => hcalm k₁ (k₂ ++ [⟨t, m, es⟩]) y ?_)
    rw [hk, List.append_assoc]

/-- The count of workers in a snapshot is from an earlier moment of the call than the
rest. If no start and no stop has the roster from then on, the snapshot is what the pool
was at one moment; whenever it is, it shows no workers of a pool that is being stopped,
and no sleepers of a pool that has no workers and is not being stopped. If it does show
the former the flag was set since the count, and if the latter workers were started. -/
theorem Reached.snapshot_between_reads (hr : Reached n h p)
    (hstep : p.step t m = some (q, es)) (he : .returned (.metrics r) ∈ es) :
    (∃ h₀ k x, h = h₀ ++ k ∧ Amid n t h₀ k x p ∧ x.Calm ∧ p.Shows x.roster.length r ∧
      ((∀ k₁ k₂ y, k = k₁ ++ k₂ → Run x k₁ y → y.Calm) → PointInTime n t h p r) ∧
      (r.shuttingDown = true → r.workerThreads ≠ 0 →
        x.ledger.shuttingDown = false ∧ p.ledger.shuttingDown = true) ∧
      (r.workerThreads = 0 → r.shuttingDown = false → r.idle ≠ 0 →
        x.roster = [] ∧ p.roster ≠ [])) ∧
    (PointInTime n t h p r →
      (r.shuttingDown = true → r.workerThreads = 0) ∧
      (r.workerThreads = 0 → r.shuttingDown = false → r.idle = 0)) := by
  refine ⟨?_, PointInTime.consistent⟩
  obtain ⟨w, hc, hshows⟩ := shows_of_returned hstep he
  obtain ⟨h₀, k, x, rfl, hamid, hcalm, rfl⟩ := hr.counted_amid hc
  rw [hshows.shuttingDown, hshows.workerThreads, hshows.idle]
  refine ⟨h₀, k, x, rfl, hamid, hcalm, hshows, fun hbetween => ?_, fun hf hsome => ?_,
    fun hnone hf hidle => ?_⟩
  · have hsame := hamid.after.roster_of_calm hbetween
    exact ⟨h₀ ++ k, [], p, (List.append_nil _).symm, .refl hr (by simp [hc]),
      hbetween k [] p (List.append_nil k).symm hamid.after, hsame ▸ hshows⟩
  · refine ⟨Bool.eq_false_iff.2 fun hset => hsome ?_, hf⟩
    exact congrArg List.length (hamid.before.roster_eq_nil_of_calm hcalm hset)
  · exact ⟨List.eq_nil_of_length_eq_zero hnone, fun hempty =>
      hidle (hr.idle_eq_zero hempty hf)⟩

/-- A client starts a worker. Another one asks for a snapshot and counts the roster, and
before it reads the ledger, the worker falls asleep. -/
def sleptBetween : List (Nat × Move Nat Unit) :=
  List.flatten [[(0, .request (.start 1))], onward 0 3, [(0, .spawn 1)], onward 0 4,
    [(2, .request .metrics)], onward 2 2, onward 1 4, onward 2 1]

def sleptBetweenRun : Pool Nat × List (Moment Nat Unit) := played 1 sleptBetween

theorem calm_of_all (hp : (p.threads.all fun th => !th.keepsRoster) = true) : p.Calm := by
  intro u
  rcases thread_mem_or_default p u with hu | hu
  · simpa using List.all_eq_true.1 hp _ hu
  · rw [hu]
    rfl

theorem sleptBetween_pointInTime :
    ∃ q r, sleptBetweenRun.1.step 2 (.advance : Move Nat Unit) =
      some (q, [.returned (.metrics r)]) ∧
    r.workerThreads = 1 ∧ r.idle = 1 ∧ r.shuttingDown = false ∧
    PointInTime 1 2 sleptBetweenRun.2 sleptBetweenRun.1 r ∧
    (r.shuttingDown = true → r.workerThreads = 0) := by
  have hr : Reached 1 sleptBetweenRun.2 sleptBetweenRun.1 :=
    .of_played (by decide +kernel)
  have hstep : sleptBetweenRun.1.step 2 (.advance : Move Nat Unit) =
      some (_, [.returned (.metrics (sleptBetweenRun.1.measure 1))]) := rfl
  have hpoint :
      PointInTime 1 2 sleptBetweenRun.2 sleptBetweenRun.1 (sleptBetweenRun.1.measure 1) :=
    ⟨_, [], _, (List.append_nil _).symm, .refl hr (by decide +kernel),
      calm_of_all (by decide +kernel), shows_measure _ 1⟩
  have hsnapshot := Reached.snapshot_between_reads hr hstep (List.mem_singleton_self _)
  exact ⟨_, _, hstep, rfl, by decide +kernel, by decide +kernel, hpoint,
    (hsnapshot.2 hpoint).1⟩

/-! ## Snapshots of a pool that never was -/

/-- A client starts a worker. Another one asks for a snapshot and counts the roster, and
before it reads the ledger, the first client stops the workers, sets the flag and takes
the worker from the roster. -/
def stoppedBetween : List (Nat × Move Nat Unit) :=
  List.flatten [[(0, .request (.start 1))], onward 0 3, [(0, .spawn 1)], onward 0 4,
    [(2, .request .metrics)], onward 2 2, [(0, .request .stop)], onward 0 5, onward 2 1]

def stoppedBetweenRun : Pool Nat × List (Moment Nat Unit) := played 1 stoppedBetween

/-- A client asks for a snapshot and counts the roster, and before it reads the ledger,
another client starts a worker, which falls asleep. -/
def startedBetween : List (Nat × Move Nat Unit) :=
  List.flatten [[(1, .request .metrics)], onward 1 2, [(0, .request (.start 1))],
    onward 0 3, [(0, .spawn 2)], onward 0 4, onward 2 4, onward 1 1]

def startedBetweenRun : Pool Nat × List (Moment Nat Unit) := played 1 startedBetween

/-- A stop between the two reads makes for a snapshot of a pool that is being stopped
and has a worker, and a start for one of a pool that has no worker, but a sleeper,
though no round was ever opened. Neither shows what the pool was at a moment of the
call. -/
theorem snapshot_torn :
    (Reached 1 stoppedBetweenRun.2 stoppedBetweenRun.1 ∧
      ∃ q r, stoppedBetweenRun.1.step 2 (.advance : Move Nat Unit) =
        some (q, [.returned (.metrics r)]) ∧ r.workerThreads = 1 ∧ r.shuttingDown = true ∧
        ¬ PointInTime 1 2 stoppedBetweenRun.2 stoppedBetweenRun.1 r) ∧
    (Reached 1 startedBetweenRun.2 startedBetweenRun.1 ∧
      ∃ q r, startedBetweenRun.1.step 1 (.advance : Move Nat Unit) =
        some (q, [.returned (.metrics r)]) ∧
        r.workerThreads = 0 ∧ r.idle = 1 ∧ r.shuttingDown = false ∧
        (startedBetweenRun.2.all fun a => a.move.calls.isEmpty) = true ∧
        ¬ PointInTime 1 1 startedBetweenRun.2 startedBetweenRun.1 r) := by
  refine ⟨⟨.of_played (by decide +kernel), _, _,
    rfl, by decide +kernel, by decide +kernel, fun hpoint => ?_⟩,
    ⟨.of_played (by decide +kernel), _, _,
      rfl, by decide +kernel, by decide +kernel, by decide +kernel,
      by decide +kernel, fun hpoint => ?_⟩⟩
  · exact absurd (hpoint.consistent.1 (by decide +kernel)) (by decide +kernel)
  · exact absurd (hpoint.consistent.2 (by decide +kernel) (by decide +kernel))
      (by decide +kernel)

end CheckRounds
