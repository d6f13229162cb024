import CheckRounds.Proofs.Shutdown
import CheckRounds.Proofs.Pool.Handles
/-!
What the end of a stop says of the workers.

A stop takes the roster and waits for those it found there. One that comes later finds
the roster empty, and is over at once, however long the first one has yet to wait. So at
the end of a stop each worker that was ever started has finished, or another stop waits
for it; only when nobody waits any more is the pool quiescent, and then it stays so.
-/

namespace CheckRounds

open Pool

variable {J E : Type} {n t u w : Nat} {h k : List (Moment J E)} {m : Move J E}
  {es : List (Event J E)} {p q r : Pool J} {stage : StopStage}

/-- All workers that were ever started have left the work loop for good. -/
def Quiescent (h : List (Moment J E)) (p : Pool J) : Prop :=
  ∀ w ∈ workersSpawned h, (p.thread w).duty = .finished

/-! ## No worker is started any more -/

/-- The workers were taken from the roster, and nobody gets into it again. -/
structure Pool.Dismissed (p : Pool J) : Prop where
  flag : p.ledger.shuttingDown = true
  roster : p.roster = []

theorem Pool.Dismissed.step (hd : p.Dismissed) (hl : p.Listed)
    (hstep : p.step t m = some (q, es)) :
    q.Dismissed := by
  have hroster := roster_of_step hstep
  rw [hl.none_spawned hd.flag hstep, hd.roster] at hroster
  exact ⟨(turns_of_step hstep).shuttingDown hd.flag,
    (List.append_eq_nil_iff.1 hroster.symm).2⟩

/-- A stop that waits for workers has taken them from the roster. -/
theorem Reached.dismissed_of_joining (hr : Reached n h p) {ws : List Nat} {count : Nat}
    (hc : (p.thread t).call = some (.stopping (.joining ws count))) : p.Dismissed := by
  induction hr generalizing t ws count with
  | nil => cases hc
  | @snoc p q h u m es before last ih =>
    have hlisted := Reached.listed before
    by_cases hu : t = u
    · subst hu
      cases hcall : (p.thread t).call with
      | none => cases ((soloGrip_of_step hcall last).begun _ hc).1
      | some c =>
        have hfits := (Reached.orderly before).calls t c hcall
        have next {x : Pool J} {d : Option Call} (hx : q = x.setCall t d) :
            d = some (.stopping (.joining ws count)) := by
          rw [hx, call_setCall] at hc
          exact hc
        cases callStep_of_step hcall last with
        | lockLedger need | lockRoster need =>
          exact (ih (hcall.trans (hcall.symm.trans hc))).step hlisted last
        | collect => exact ⟨hfits.flag, rfl⟩
        | join => exact (ih hcall).step hlisted last
        | _ => cases next rfl
    · obtain ⟨o, _, ht⟩ := turns_of_step last
      rw [ht.same Thread.call_roused rfl hu] at hc
      exact (ih hc).step hlisted last

/-- Where a stop ends it has taken the roster, or has found it empty. -/
theorem Reached.dismissed_of_returned (hr : Reached n h p)
    (hc : (p.thread t).call = some (.stopping stage)) (hstep : p.step t m = some (q, es))
    (hret : .returned .done ∈ es) :
    q.Dismissed ∧ (q.thread t).call = none := by
  have hfits := hr.orderly.calls t _ hc
  cases callStep_of_step hc hstep with
  | collectNone => exact ⟨⟨hfits.flag, rfl⟩, call_setCall _ _ _⟩
  | endStop =>
    exact ⟨(hr.dismissed_of_joining hc).step hr.listed hstep, call_setCall _ _ _⟩
  | _ => simp at hret

theorem Pool.Dismissed.run (hd : p.Dismissed) (hr : Reached n h p) (hk : Run p k q) :
    q.Dismissed ∧ workersSpawned k = [] := by
  induction hk with
  | nil => exact ⟨hd, rfl⟩
  | snoc before last ih =>
    have hlisted := Reached.listed (Run.trans hr before)
    refine ⟨ih.1.step hlisted last, ?_⟩
    have hnone := ih.2
    rw [workersSpawned] at hnone ⊢
    rw [collect_append, hnone, collect_singleton, hlisted.none_spawned ih.1.flag last]
    rfl

/-! ## Who has finished -/

theorem Run.finished (hk : Run p k q) (hd : (p.thread w).duty = .finished) :
    (q.thread w).duty = .finished := by
  induction hk with
  | nil => exact hd
  | snoc _ last ih => exact (turns_of_step last).finished ih

theorem Pool.finished_of_joined (hstep : p.step t m = some (q, es))
    (hw : w ∈ es.flatMap Event.joinedWorkers) : (p.thread w).duty = .finished := by
  cases hc : (p.thread t).call with
  | none =>
    cases soloStep_of_step hc hstep with
    | begins => cases hw
    | goesOn _ _ step =>
      rw [(step.frame hc).nothing Event.joinedWorkers_of_duty] at hw
      cases hw
  | some c =>
    cases callStep_of_step hc hstep with
    | join finished =>
      obtain rfl : w = _ := by simpa [Event.joinedWorkers] using hw
      exact finished
    | _ => simp [Event.joinedWorkers] at hw

/-- Who has been waited for has finished. -/
theorem Reached.finished_of_joined (hr : Reached n h p) (hw : w ∈ workersJoined h) :
    (p.thread w).duty = .finished := by
  induction hr with
  | nil => cases hw
  | snoc _ last ih =>
    rw [workersJoined, collect_append, collect_singleton, List.mem_append] at hw
    refine (turns_of_step last).finished ?_
    rcases hw with hw | hw
    · exact ih hw
    · exact Pool.finished_of_joined last hw

/-- Who was taken from the roster has been waited for, or somebody has yet to wait for
it. -/
theorem Enrolled.joined_or_awaited (he : Enrolled h p) (hw : w ∈ workersCollected h) :
    w ∈ workersJoined h ∨ ∃ s, w ∈ (p.thread s).toJoin := by
  have hweights := he.weights fun v => if v = w then 1 else 0
  simp only [total_indicator] at hweights
  have hcollected : 0 < (workersCollected h).count w := List.count_pos_iff.2 hw
  by_cases hjoined : w ∈ workersJoined h
  · exact .inl hjoined
  · rw [List.count_eq_zero_of_not_mem hjoined] at hweights
    obtain ⟨s, hs⟩ :=
      exists_thread_of_total_pos (p := p) (f := fun th => th.toJoin.count w) (by omega)
    exact .inr ⟨s, List.count_pos_iff.1 hs⟩

theorem Reached.finished_or_awaited (hr : Reached n h p) (hd : p.Dismissed)
    (hw : w ∈ workersSpawned h) :
    (p.thread w).duty = .finished ∨ ∃ s, w ∈ (p.thread s).toJoin := by
  have henrolled := hr.enrolled
  rw [henrolled.place, hd.roster, List.append_nil] at hw
  exact (henrolled.joined_or_awaited hw).imp_left hr.finished_of_joined

theorem Pool.toJoin_eq_nil_of_all (h : ∀ th ∈ p.threads, th.toJoin = []) (u : Nat) :
    (p.thread u).toJoin = [] := by
  rcases thread_mem_or_default p u with hmem | hnew
  · exact h _ hmem
  · rw [hnew]
    rfl

/-! ## The end of a stop -/

/-- When a stop returns, no worker can be started any more, and each worker that was
ever started has finished, or the stop of another thread has taken it from the roster
and still waits for it. If no thread waits for a worker at that moment the pool is
quiescent, and remains so. -/
theorem Reached.finished_or_awaited_at_end (hr : Reached n h p)
    (hc : (p.thread t).call = some (.stopping stage)) (hstep : p.step t m = some (q, es))
    (hret : .returned .done ∈ es) :
    (∀ (k : List (Moment J E)) r, Run q k r → workersSpawned k = []) ∧
    (∀ w ∈ workersSpawned (h ++ [⟨t, m, es⟩]),
      (q.thread w).duty = .finished ∨ ∃ s, s ≠ t ∧ w ∈ (q.thread s).toJoin) ∧
    ((∀ s, (q.thread s).toJoin = []) →
      ∀ (k : List (Moment J E)) r, Run q k r → Quiescent (h ++ [⟨t, m, es⟩] ++ k) r) := by
  have hq : Reached n (h ++ [⟨t, m, es⟩]) q := Run.snoc hr hstep
  obtain ⟨hdismissed, hover⟩ := hr.dismissed_of_returned hc hstep hret
  have hwaits (w) (hw : w ∈ workersSpawned (h ++ [⟨t, m, es⟩])) :
      (q.thread w).duty = .finished ∨ ∃ s, s ≠ t ∧ w ∈ (q.thread s).toJoin := by
    refine (hq.finished_or_awaited hdismissed hw).imp_right ?_
    rintro ⟨s, hs⟩
    refine ⟨s, ?_, hs⟩
    rintro rfl
    rw [Thread.toJoin_of_none hover] at hs
    cases hs
  refine ⟨fun k r hk => (hdismissed.run hq hk).2, hwaits, fun hnobody k r hk w hw => ?_⟩
  have hspawned : workersSpawned (h ++ [⟨t, m, es⟩] ++ k) =
      workersSpawned (h ++ [⟨t, m, es⟩]) := by
    have hnone := (hdismissed.run hq hk).2
    rw [workersSpawned] at hnone
    rw [workersSpawned, collect_append, hnone, List.append_nil]
    rfl
  rw [hspawned] at hw
  refine hk.finished ((hwaits w hw).resolve_right ?_)
  rintro ⟨s, _, hs⟩
  rw [hnobody s] at hs
  cases hs

/-! ## Two stops at once -/

/-- A client starts a worker, which runs a job; the client stops the workers and waits
for that one. Another client stops the workers as well, and finds the roster empty. -/
def overlap : List (Nat × Move Nat Unit) :=
  List.flatten [[(0, .request (.start 1))], onward 0 3, [(0, .spawn 1)], onward 0 4,
    [(0, .openRound)], onward 0 4, [(0, .add [5, 6])], onward 0 3, onward 1 4,
    [(1, .work .proceed)], [(0, .request .stop)], onward 0 5, [(2, .request .stop)],
    onward 2 4]

/-- The second stop is over; then the worker carries out its job and leaves, and the
first stop has seen it. -/
def overlapEnd : List (Nat × Move Nat Unit) :=
  List.flatten [overlap, onward 2 1,
    [(1, .work (.conclude (.ok true))), (1, .work (.discard none))], onward 1 7,
    onward 0 1]

def overlapRun : Pool Nat × List (Moment Nat Unit) := played 1 overlap

def overlapEndRun : Pool Nat × List (Moment Nat Unit) := played 1 overlapEnd

/-- The second of two stops returns while the worker runs a job, although neither is
called by a worker. -/
theorem second_stop_not_quiescent :
    Reached 1 overlapRun.2 overlapRun.1 ∧
    workersSpawned overlapRun.2 = [1] ∧
    (∀ m ∈ overlapRun.2, m.move.request? = some .stop → m.thread = 0 ∨ m.thread = 2) ∧
    ∃ q, (overlapRun.1.thread 2).call = some (.stopping .collecting) ∧
      overlapRun.1.step 2 (.advance : Move Nat Unit) =
        some (q, [.collected [], .returned .done]) ∧
      ¬ Quiescent (overlapRun.2 ++ [⟨2, .advance, [.collected [], .returned .done]⟩]) q ∧
      ∃ x, (q.thread 1).duty = .looping .worker (.executing x) ∧ x.inJob = true := by
  have hr : Reached 1 overlapRun.2 overlapRun.1 := .of_played (by decide +kernel)
  refine ⟨hr, by decide +kernel, by decide +kernel, _, rfl, rfl, fun hquiet => ?_, _,
    rfl, rfl⟩
  have hd := hquiet 1 (by decide +kernel)
  cases hd

/-- Where the first one returns the worker has finished. -/
theorem first_stop_quiescent :
    Reached 1 overlapEndRun.2 overlapEndRun.1 ∧
    (overlapEndRun.1.thread 0).call = some (.stopping (.joining [] 1)) ∧
    ∃ q, overlapEndRun.1.step 0 (.advance : Move Nat Unit) =
      some (q, [.stopped 1, .returned .done]) ∧
      Quiescent (overlapEndRun.2 ++ [⟨0, .advance, [.stopped 1, .returned .done]⟩])
        q := by
  have hr : Reached 1 overlapEndRun.2 overlapEndRun.1 := .of_played (by decide +kernel)
  have hstep : overlapEndRun.1.step 0 (.advance : Move Nat Unit) =
      some (_, [.stopped 1, .returned .done]) := rfl
  refine ⟨hr, rfl, _, hstep, ?_⟩
  obtain ⟨_, _, hquiet⟩ := Reached.finished_or_awaited_at_end hr rfl hstep (by simp)
  rw [← List.append_nil (overlapEndRun.2 ++ _)]
  exact hquiet (toJoin_eq_nil_of_all (by decide +kernel)) [] _ (.nil _)

end CheckRounds
