import CheckRounds.Proofs.Job.Fates
import CheckRounds.Proofs.Pool.Calls
import CheckRounds.Proofs.Pool.Handles
/-!
What the jobs of a round leave in the history of a pool.

When the fates of the jobs are settled beforehand, each job leaves its course somewhere
in the trace, whoever carries it out (`Run.perm_jobTrace`). Without workers, nobody but
the opener of the round carries out jobs, so the courses stand one after another, in the
order in which the jobs were added (`Run.jobTrace_eq`).
-/

namespace CheckRounds

open Pool

variable {J E : Type} {t u : Nat} {h k : List (Moment J E)} {m : Move J E}
  {es : List (Event J E)} {p q : Pool J} {o : Upshot J E} {fates : J → Fate}

namespace Event

def Obeys (fates : J → Fate) : Event J E → Prop
  | .job e => e.Obeys fates
  | _ => True

def trace : Event J E → List (JobEvent J E)
  | .job e => e.trace
  | _ => []

end Event

/-- In this part of a history, all jobs behave as their fates have it. -/
def Fated (fates : J → Fate) (h : List (Moment J E)) : Prop :=
  ∀ m ∈ h, ∀ e ∈ m.events, e.Obeys fates

instance (fates : J → Fate) (e : Event J E) : Decidable (e.Obeys fates) :=
  match e with
  | .job e => inferInstanceAs (Decidable (e.Obeys fates))
  | .opened | .added _ | .took _ _ | .executed _ _ | .reported _ | .drained _
  | .completed _ _ | .closed | .spawned _ _ | .started _ _ | .flagged | .alarmed
  | .collected _ | .joined _ | .stopped _ | .returned _ => isTrue trivial

instance (fates : J → Fate) (h : List (Moment J E)) : Decidable (Fated fates h) :=
  inferInstanceAs (Decidable (∀ m ∈ h, ∀ e ∈ m.events, e.Obeys fates))

/-- The calls, the answers and the releases of jobs, and the crashes that were logged,
in their order. -/
def jobTrace (h : List (Moment J E)) : List (JobEvent J E) := collect Event.trace h

theorem fated_append : Fated fates (h ++ k) ↔ Fated fates h ∧ Fated fates k := by
  simp only [Fated, List.mem_append, or_imp, forall_and]

theorem fated_singleton : Fated fates [⟨t, m, es⟩] ↔ ∀ e ∈ es, e.Obeys fates := by
  simp [Fated]

theorem Fated.follows (hf : Fated fates h) : Follows (fun j => (fates j).outcome) h := by
  intro j hj
  simp only [jobsEnded, collect, List.mem_flatMap, events, List.mem_map] at hj
  obtain ⟨_, ⟨k, hk, e, he, rfl⟩, hj⟩ := hj
  cases e with
  | job e => exact JobEvent.Obeys.outcome (hf k hk _ he) j hj
  | _ => cases hj

theorem jobsCalled_eq (h : List (Moment J E)) :
    jobsCalled h = (jobTrace h).flatMap JobEvent.calledJobs := by
  have hevent : ∀ e : Event J E, e.trace.flatMap JobEvent.calledJobs = e.calledJobs := by
    intro e
    cases e with
    | job e => cases e <;> rfl
    | _ => rfl
  simp only [jobsCalled, jobTrace, collect, List.flatMap_assoc, hevent]

/-! ## One step -/

/-- The trace that the thread has yet to leave of its batch. -/
def Thread.sequel (fates : J → Fate) (th : Thread J) : List (JobEvent J E) :=
  match th.duty with
  | .looping _ (.executing x) => x.sequel fates
  | _ => []

theorem Thread.sequel_roused (th : Thread J) :
    th.roused.sequel fates = (th.sequel fates : List (JobEvent J E)) :=
  apply_roused (fun th role hd => by simp [sequel, hd]) th

theorem Thread.steady_sequel (fates : J → Fate) (f : JobEvent J E → Nat) :
    Steady fun th : Thread J => total f (th.sequel fates) where
  idle := rfl
  newborn := rfl
  roused th := by rw [sequel_roused]

theorem Thread.sequel_of_inFlight {th : Thread J} (h : th.inFlight = 0) (hs : th.Sound) :
    th.sequel fates = ([] : List (JobEvent J E)) := by
  unfold sequel
  split
  · rename_i role x hd
    exact absurd rfl ((hs.stage_of_inFlight h hd).1 x)
  · rfl

theorem trace_of_clerical {es : List (Event J E)} (h : ∀ e ∈ es, e.clerical = true) :
    es.flatMap Event.trace = [] :=
  flatMap_of_clerical h fun e he => by
    cases e with
    | job => cases he
    | _ => rfl

/-- What a step leaves in the trace is the next part of the course of the jobs that the
thread has. -/
theorem Shift.sequel {l : Ledger J} {s : Option Nat} {th : Thread J}
    (h : Shift t l s th m o) (hf : ∀ e ∈ o.events, e.Obeys fates) :
    th.sequel fates ++ (o.events.flatMap Event.takenJobs).flatMap
      (JobEvent.course fates) =
      o.events.flatMap Event.trace ++ o.thread.sequel fates := by
  cases h with
  | still _ hc => simp [takenJobs_of_clerical hc, trace_of_clerical hc]
  | @clerical m c es _ _ _ hc =>
    have hsame : (th.withCall c).sequel fates = (th.sequel fates : List (JobEvent J E)) :=
      rfl
    simp [takenJobs_of_clerical hc, trace_of_clerical hc, hsame]
  | configure | flag | spawn | retell =>
    simp [Event.takenJobs, Event.trace, Thread.sequel]
  | alarm =>
    have hsame : (th.roused.withCall (some (.stopping .collecting))).sequel fates =
        (th.sequel fates : List (JobEvent J E)) := Thread.sequel_roused th
    simp [Event.takenJobs, Event.trace, hsame]
  | seize _ hd => rcases hd with hd | hd <;> simp [Thread.sequel, hd]
  | take hd =>
    simp [Thread.sequel, hd, Event.takenJobs, Event.trace, Execution.sequel_start]
  | @work role x y d e hd hx =>
    have hobeys : e.Obeys fates := hf (.job e) (by simp)
    simp [Thread.sequel, hd, Event.takenJobs, Event.trace,
      Execution.sequel_step hx hobeys]
  | finish hd hx =>
    simp [Thread.sequel, hd, Event.takenJobs, Event.trace,
      Execution.sequel_of_finished hx]
  | @report role tally hd =>
    by_cases hz : l.todo - tally.executed = 0 <;>
      simp [Thread.sequel, hd, Event.takenJobs, Event.trace, hz]
  | @leave role v hd => cases role <;> simp [Thread.sequel, hd, afterLoop]
  | submit hd | push hd | opened hd | answer hd | conclude hd | reset hd | release hd
  | knock hd | rouseAll hd | rouseOne hd | engage hd | dismiss hd | enter hd | quit hd
  | drain hd | sleep hd | stir hd | wake hd | announce hd =>
    simp [Thread.sequel, hd, Event.takenJobs, Event.trace]

/-! ## With any workers -/

/-- By any weight, the trace so far, and what the jobs have yet to leave that are under
way or wait, are the courses of the jobs that were added. -/
theorem Run.weigh_trace (hp : p.Sound) (hb : p.Blank) (hr : Run p k q)
    (hf : Fated fates k) (f : JobEvent J E → Nat) :
    total f (jobTrace k) + total f (q.ledger.pending.flatMap (JobEvent.course fates)) +
      total (fun th => total f (th.sequel fates)) q.threads =
        total f ((jobsAdded k).flatMap (JobEvent.course fates)) := by
  refine Run.induct (C := fun k q => Fated fates k →
    total f (jobTrace k) + total f (q.ledger.pending.flatMap (JobEvent.course fates)) +
      total (fun th => total f (th.sequel fates)) q.threads =
        total f ((jobsAdded k).flatMap (JobEvent.course fates))) hp ?_ ?_ hr hf
  · intro _
    have hnone :
        total (fun th : Thread J => total f (th.sequel fates)) p.threads = 0 := by
      apply total_eq_zero
      intro th hth
      obtain ⟨u, rfl⟩ := exists_thread_of_mem hth
      rw [Thread.sequel_of_inFlight (hb.inFlight u) (hp.threads u)]
      rfl
    rw [hb.pending, hnone]
    rfl
  · intro k p t m q es _ ih ht hf
    obtain ⟨hfirst, hlast⟩ := fated_append.1 hf
    have hbefore := ih hfirst
    obtain ⟨o, hs, ht⟩ := ht
    rw [fated_singleton, ht.events] at hlast
    have hthreads := ht.total_threads (Thread.steady_sequel fates f)
    have hsequel := congrArg (total f) (hs.sequel hlast)
    have htaken :=
      congrArg (fun js => total f (js.flatMap (JobEvent.course fates))) hs.flow.taken
    simp only [jobTrace, jobsAdded, collect_append, collect_singleton,
      List.flatMap_append, total_append, ht.events, ht.ledger] at hbefore hsequel htaken ⊢
    omega

/-- When no round is open, each job that was added has left its course in the trace. -/
theorem Run.perm_jobTrace (hv : p.Vacant) (hr : Run p k q) (hq : q.Vacant)
    (hf : Fated fates k) :
    (jobTrace k).Perm
      (((roundCalls k).flatMap RoundCall.jobs).flatMap (JobEvent.course fates)) := by
  apply perm_of_total
  intro f
  have hweight := Run.weigh_trace hv.sound hv.blank hr hf f
  have hnone : total (fun th : Thread J => total f (th.sequel fates)) q.threads = 0 := by
    apply total_eq_zero
    intro th hth
    obtain ⟨u, rfl⟩ := exists_thread_of_mem hth
    rw [Thread.sequel_of_inFlight (hq.blank.inFlight u) (hq.sound.threads u)]
    rfl
  rw [hq.blank.pending, hnone, Run.jobsAdded_of_vacant hv hr hq] at hweight
  exact hweight

/-! ## Without workers -/

/-- No thread is in the work loop as a worker. -/
def Pool.Unstaffed (p : Pool J) : Prop :=
  ∀ u stage, (p.thread u).duty ≠ .looping .worker stage

theorem Turns.unstaffed (hs : Turns p t m q es)
    (hn : es.flatMap Event.spawnedWorkers = []) (hp : p.Unstaffed) : q.Unstaffed := by
  intro u stage hd
  rcases hs.worker_before hd with ⟨stage', hd'⟩ | hspawned
  · exact hp u stage' hd'
  · rw [hn] at hspawned
    cases hspawned

theorem Run.unstaffed (hp : p.Sound) (hu : p.Unstaffed) (hr : Run p k q)
    (hn : workersSpawned k = []) :
    q.Unstaffed := by
  refine Run.induct (C := fun k q => workersSpawned k = [] →
    q.Unstaffed) hp (fun _ => hu) ?_ hr hn
  intro k p t m q es _ ih ht hn
  simp only [workersSpawned, collect_append, collect_singleton,
    List.append_eq_nil_iff] at ih hn
  exact ht.unstaffed hn.2 (ih hn.1)

/-- Without workers nobody but the opener of the round is in the work loop. -/
theorem Pool.Unstaffed.eq_opener (hu : p.Unstaffed) (hp : p.Sound) {role : Role}
    {stage : LoopStage J} (ht : (p.thread t).HasSlot)
    (hd : (p.thread u).duty = .looping role stage) : u = t := by
  cases role with
  | worker => exact absurd hd (hu u stage)
  | owner why =>
    exact hp.eq_of_hasSlot ((hp.slot t).1 ht) ((hp.threads u).undecided hd).hasSlot

/-- Without workers, a round of which nothing waits, and of which its opener has no
batch, is drained. -/
theorem Pool.Unstaffed.todo_eq_zero (hu : p.Unstaffed) (hp : p.Sound)
    (ht : (p.thread t).HasSlot) (hidle : (p.thread t).inFlight = 0)
    (hnone : p.ledger.pending = []) : p.ledger.todo = 0 := by
  have hnobody : total Thread.inFlight p.threads = 0 := by
    by_contra hbusy
    obtain ⟨v, hv⟩ := exists_thread_of_total_pos (Nat.pos_of_ne_zero hbusy)
    obtain ⟨role, stage, hd⟩ := Thread.looping_of_inFlight hv
    obtain rfl := hu.eq_opener hp ht hd
    omega
  rw [hp.todo, hnone, hnobody]
  rfl

/-- A thread that neither is a worker nor has the slot has nothing to do with jobs. -/
theorem Shift.trace_eq_nil {l : Ledger J} {s : Option Nat} {th : Thread J}
    (h : Shift t l s th m o) (hs : th.Sound) (hn : ¬ th.HasSlot)
    (hu : ∀ stage, th.duty ≠ .looping .worker stage) :
    o.events.flatMap Event.trace = [] ∧ o.events.flatMap Event.takenJobs = [] := by
  -- Who is in the loop is a worker, or has the slot.
  have notLooping : ∀ role stage, th.duty ≠ .looping role stage := by
    intro role stage hd
    cases role with
    | worker => exact hu stage hd
    | owner why => exact hn (hs.undecided hd).hasSlot
  cases h with
  | still _ hc | clerical _ _ _ hc =>
    exact ⟨trace_of_clerical hc, takenJobs_of_clerical hc⟩
  | take hd | work hd => exact absurd hd (notLooping _ _)
  | _ => exact ⟨rfl, rfl⟩

/-- Without workers, nobody but the opener of the round has a batch. -/
theorem Pool.Unstaffed.sequel_eq_nil (hu : p.Unstaffed) (hp : p.Sound) (u : Nat)
    (hn : ¬ (p.thread u).HasSlot) :
    (p.thread u).sequel fates = ([] : List (JobEvent J E)) := by
  unfold Thread.sequel
  split
  · rename_i role x hd
    cases role with
    | worker => exact absurd hd (hu u _)
    | owner why => exact absurd ((hp.threads u).undecided hd).hasSlot hn
  · rfl

theorem Pool.Vacant.sequel_eq_nil (hv : p.Vacant) :
    p.atOpener (Thread.sequel fates) = ([] : List (JobEvent J E)) := by
  unfold atOpener
  cases p.slot with
  | none => rfl
  | some u => exact Thread.sequel_of_inFlight (hv.blank.inFlight u) (hv.sound.threads u)

theorem Turns.sequel (hs : Turns p t m q es) (hp : p.Sound) (hu : p.Unstaffed)
    (hu' : q.Unstaffed) (hf : ∀ e ∈ es, e.Obeys fates) :
    p.atOpener (Thread.sequel fates) ++ (es.flatMap Event.takenJobs).flatMap
      (JobEvent.course fates) =
      es.flatMap Event.trace ++ q.atOpener (Thread.sequel fates) := by
  refine hs.atOpener hp Thread.sequel_roused rfl (hu.sequel_eq_nil hp)
    (hu'.sequel_eq_nil (hp.turn hs)) ?_
    fun hn => ?_
  · obtain ⟨o, hs, ht⟩ := hs
    rw [ht.events] at hf ⊢
    rw [ht.self]
    exact hs.sequel hf
  · obtain ⟨o, hs, ht⟩ := hs
    obtain ⟨htrace, htaken⟩ := hs.trace_eq_nil (hp.threads t) hn (hu t)
    rw [ht.events, htrace, htaken]
    exact ⟨rfl, rfl⟩

/-- The trace so far is that of the jobs taken so far, as far as their opener has come
with them. -/
theorem Run.traced (hv : p.Vacant) (hu : p.Unstaffed) (hr : Run p k q)
    (hn : workersSpawned k = []) (hf : Fated fates k) :
    jobTrace k ++ q.atOpener (Thread.sequel fates) =
      (jobsTaken k).flatMap (JobEvent.course fates) := by
  induction hr with
  | nil => exact hv.sequel_eq_nil
  | @snoc q r k t m es before last ih =>
    obtain ⟨hfirst, hlast⟩ := fated_append.1 hf
    rw [fated_singleton] at hlast
    have hspawned := hn
    simp only [workersSpawned, collect_append, collect_singleton,
      List.append_eq_nil_iff] at hspawned
    have hq := Run.sound hv.sound before
    have hunstaffed := Run.unstaffed hv.sound hu before hspawned.1
    have ht := turns_of_step last
    have hstep := ht.sequel hq hunstaffed (ht.unstaffed hspawned.2 hunstaffed) hlast
    have hbefore := ih hspawned.1 hfirst
    simp only [jobTrace, jobsTaken, collect_append, collect_singleton,
      List.flatMap_append] at hbefore ⊢
    rw [← hbefore, List.append_assoc, List.append_assoc, hstep]

/-- Without workers, the trace of a round is the courses of its jobs, in the order in
which they were added. -/
theorem Run.jobTrace_eq (hv : p.Vacant) (hu : p.Unstaffed) (hr : Run p k q)
    (hq : q.Vacant) (hn : workersSpawned k = []) (hf : Fated fates k) :
    jobTrace k =
      ((roundCalls k).flatMap RoundCall.jobs).flatMap (JobEvent.course fates) := by
  have htraced := Run.traced hv hu hr hn hf
  have htaken := Run.taken_append_pending hv.sound hr
  rw [hq.sequel_eq_nil, List.append_nil] at htraced
  rw [hv.blank.pending, hq.blank.pending, List.append_nil, List.nil_append] at htaken
  rw [htraced, htaken, Run.jobsAdded_of_vacant hv hr hq]

end CheckRounds
