import CheckRounds.Proofs.Job.Shift
import CheckRounds.Proofs.Pool.Sound
/-!
The way of the jobs through a pool, as a history shows it.

A job is added, taken with its batch, called, and ended. The lists of the jobs added,
taken, called and ended so far are read off the events alone. What one step appends to
these lists it takes from where the jobs were before: from `pending`, or from the batch
of the thread that moves (`Flow`).
-/

namespace CheckRounds

open Pool

variable {J E : Type}

/-! ## What a history shows of jobs -/

namespace Event

def addedJobs : Event J E → List J
  | .added jobs => jobs
  | _ => []

def takenJobs : Event J E → List J
  | .took _ batch => batch
  | _ => []

def calledJobs : Event J E → List J
  | .job e => e.calledJobs
  | _ => []

def endedJobs : Event J E → List (J × Fate)
  | .job e => e.endedJobs
  | _ => []

end Event

def collect {α : Type} (f : Event J E → List α) (h : List (Moment J E)) : List α :=
  (events h).flatMap fun e => f e.2

def jobsAdded (h : List (Moment J E)) : List J := collect Event.addedJobs h

/-- The batches that were taken, one after another. -/
def jobsTaken (h : List (Moment J E)) : List J := collect Event.takenJobs h

def jobsCalled (h : List (Moment J E)) : List J := collect Event.calledJobs h

/-- The jobs that were called and released, each with how it behaved, in the order of
the releases. -/
def jobsEnded (h : List (Moment J E)) : List (J × Fate) := collect Event.endedJobs h

/-- What a history tells of one thread. -/
def ofThread (t : Nat) (h : List (Moment J E)) : List (Moment J E) :=
  h.filter (·.thread == t)

@[simp] theorem collect_nil {α : Type} (f : Event J E → List α) : collect f [] = [] := rfl

@[simp] theorem collect_append {α : Type} (f : Event J E → List α)
    (h k : List (Moment J E)) :
    collect f (h ++ k) = collect f h ++ collect f k := by
  simp [collect]

@[simp] theorem collect_singleton {α : Type} (f : Event J E → List α) (m : Moment J E) :
    collect f [m] = m.events.flatMap f := by
  simp [collect, events, List.flatMap_map]

@[simp] theorem ofThread_append (t : Nat) (h k : List (Moment J E)) :
    ofThread t (h ++ k) = ofThread t h ++ ofThread t k := List.filter_append h k

theorem ofThread_singleton (t : Nat) (m : Moment J E) :
    ofThread t [m] = if m.thread = t then [m] else [] := by
  by_cases h : m.thread = t <;> simp [ofThread, h]

/-! ## Where the jobs of a thread are -/

namespace Thread

/-- The jobs that the thread has taken and not called. -/
def uncalled (th : Thread J) : List J :=
  match th.duty with
  | .looping _ (.executing x) => x.rest
  | _ => []

/-- The jobs that the thread has taken and that have not ended. -/
def unended (th : Thread J) : List J :=
  match th.duty with
  | .looping _ (.executing x) => x.unended
  | _ => []

theorem uncalled_roused (th : Thread J) : th.roused.uncalled = th.uncalled :=
  apply_roused (fun th role hd => by simp [uncalled, hd]) th

theorem unended_roused (th : Thread J) : th.roused.unended = th.unended :=
  apply_roused (fun th role hd => by simp [unended, hd]) th

theorem steady_uncalled (f : J → Nat) :
    Steady fun th : Thread J => total f th.uncalled where
  idle := rfl
  newborn := rfl
  roused th := by rw [uncalled_roused]

theorem steady_unended (f : J → Nat) :
    Steady fun th : Thread J => total f th.unended where
  idle := rfl
  newborn := rfl
  roused th := by rw [unended_roused]

theorem uncalled_of_inFlight {th : Thread J} (h : th.inFlight = 0) :
    th.uncalled = [] := by
  unfold uncalled
  split
  · rename_i x hd
    have := x.length_rest_le
    simp only [inFlight, hd] at h
    exact List.eq_nil_of_length_eq_zero (by omega)
  · rfl

theorem unended_of_inFlight {th : Thread J} (h : th.inFlight = 0) : th.unended = [] := by
  unfold unended
  split
  · rename_i x hd
    have := x.length_unended_le
    simp only [inFlight, hd] at h
    exact List.eq_nil_of_length_eq_zero (by omega)
  · rfl

end Thread

/-! ## One step -/

/-- What a step shows of jobs is what it takes from where they were. -/
structure Flow (l : Ledger J) (th : Thread J) (o : Upshot J E) : Prop where
  taken : l.pending ++ o.events.flatMap Event.addedJobs =
    o.events.flatMap Event.takenJobs ++ o.ledger.pending
  called : th.uncalled ++ o.events.flatMap Event.takenJobs =
    o.events.flatMap Event.calledJobs ++ o.thread.uncalled
  ended : th.unended ++ o.events.flatMap Event.takenJobs =
    (o.events.flatMap Event.endedJobs).map Prod.fst ++ o.thread.unended

theorem Flow.of_same {l : Ledger J} {th : Thread J} {o : Upshot J E}
    (ha : o.events.flatMap Event.addedJobs = [])
    (ht : o.events.flatMap Event.takenJobs = [])
    (hc : o.events.flatMap Event.calledJobs = [])
    (he : o.events.flatMap Event.endedJobs = []) (hp : o.ledger.pending = l.pending)
    (hu : o.thread.uncalled = th.uncalled) (hn : o.thread.unended = th.unended) :
    Flow l th o where
  taken := by simp [ha, ht, hp]
  called := by simp [ht, hc, hu]
  ended := by simp [ht, he, hn]

theorem flatMap_of_clerical {α : Type} {f : Event J E → List α} {es : List (Event J E)}
    (h : ∀ e ∈ es, e.clerical = true)
    (hf : ∀ e : Event J E, e.clerical = true → f e = []) :
    es.flatMap f = [] := List.flatMap_eq_nil_iff.2 fun e he => hf e (h e he)

theorem addedJobs_of_clerical {es : List (Event J E)} (h : ∀ e ∈ es, e.clerical = true) :
    es.flatMap Event.addedJobs = [] :=
  flatMap_of_clerical h fun e he => by
    cases e with
    | added => cases he
    | _ => rfl

theorem endedJobs_of_clerical {es : List (Event J E)} (h : ∀ e ∈ es, e.clerical = true) :
    es.flatMap Event.endedJobs = [] :=
  flatMap_of_clerical h fun e he => by
    cases e with
    | job => cases he
    | _ => rfl

theorem takenJobs_of_clerical {es : List (Event J E)} (h : ∀ e ∈ es, e.clerical = true) :
    es.flatMap Event.takenJobs = [] :=
  flatMap_of_clerical h fun e he => by
    cases e with
    | took => cases he
    | _ => rfl

theorem calledJobs_of_clerical {es : List (Event J E)} (h : ∀ e ∈ es, e.clerical = true) :
    es.flatMap Event.calledJobs = [] :=
  flatMap_of_clerical h fun e he => by
    cases e with
    | job => cases he
    | _ => rfl

theorem Flow.of_clerical {l : Ledger J} {th : Thread J} {o : Upshot J E}
    (h : ∀ e ∈ o.events, e.clerical = true) (hp : o.ledger.pending = l.pending)
    (hu : o.thread.uncalled = th.uncalled) (hn : o.thread.unended = th.unended) :
    Flow l th o :=
  .of_same (addedJobs_of_clerical h) (takenJobs_of_clerical h) (calledJobs_of_clerical h)
    (endedJobs_of_clerical h) hp hu hn

variable {p q : Pool J} {t : Nat} {m : Move J E} {es : List (Event J E)} {o : Upshot J E}

theorem Shift.flow {l : Ledger J} {s : Option Nat} {th : Thread J}
    (h : Shift t l s th m o) :
    Flow l th o := by
  cases h with
  | still _ he => exact .of_clerical he rfl rfl rfl
  | clerical _ _ _ he => exact .of_clerical he rfl rfl rfl
  | configure | flag | spawn | retell => exact .of_same rfl rfl rfl rfl rfl rfl rfl
  | alarm =>
    exact .of_same rfl rfl rfl rfl rfl (Thread.uncalled_roused th)
      (Thread.unended_roused th)
  | push hd =>
    refine ⟨?_, ?_, ?_⟩ <;>
      simp [Thread.uncalled, Thread.unended, hd, Event.addedJobs, Event.takenJobs,
        Event.calledJobs, Event.endedJobs]
  | take hd =>
    have hb : l.batch ++ l.take.pending = l.pending := l.batch_append_pending_take
    refine ⟨?_, ?_, ?_⟩
    · simp [Event.addedJobs, Event.takenJobs, hb]
    · simp [Thread.uncalled, hd, Event.takenJobs, Event.calledJobs]
    · simp [Thread.unended, hd, Event.takenJobs, Event.endedJobs, Execution.unended,
        Execution.current?, Execution.start]
  | work hd hx =>
    refine ⟨?_, ?_, ?_⟩
    · simp [Event.addedJobs, Event.takenJobs]
    · simp [Thread.uncalled, hd, Event.takenJobs, Event.calledJobs,
        Execution.rest_step hx]
    · simp [Thread.unended, hd, Event.takenJobs, Event.endedJobs,
        Execution.unended_step hx]
  | finish hd hx =>
    have hn := Execution.unended_of_finished hx
    have hr : _ = [] := (List.append_eq_nil_iff.1 hn).2
    exact .of_same rfl rfl rfl rfl rfl (by simp [Thread.uncalled, hd, hr])
      (by simp [Thread.unended, hd, hn])
  | @report role tally hd =>
    by_cases hz : (l.report tally).todo = 0
    · rw [if_pos hz]
      exact .of_same rfl rfl rfl rfl rfl (by simp [Thread.uncalled, hd])
        (by simp [Thread.unended, hd])
    · rw [if_neg hz]
      exact .of_same rfl rfl rfl rfl rfl (by simp [Thread.uncalled, hd])
        (by simp [Thread.unended, hd])
  | @leave role v hd =>
    cases role <;>
      exact .of_same rfl rfl rfl rfl rfl (by simp [Thread.uncalled, hd, afterLoop])
      (by simp [Thread.unended, hd, afterLoop])
  | seize _ hd =>
    refine .of_same rfl rfl rfl rfl rfl ?_ ?_ <;>
      rcases hd with hd | hd <;> simp [Thread.uncalled, Thread.unended, hd]
  | opened hd | submit hd | answer hd | conclude hd | reset hd | release hd | knock hd
  | rouseAll hd | rouseOne hd | engage hd | dismiss hd | enter hd | quit hd
  | drain hd | sleep hd | stir hd | wake hd | announce hd =>
    exact .of_same rfl rfl rfl rfl rfl (by simp [Thread.uncalled, hd])
      (by simp [Thread.unended, hd])

/-- By any weight, the jobs that were called, wait, or wait in a batch are those that
were added in this part of a history; and so are the jobs that ended, wait, or have not
ended in a batch. -/
structure Weighed (h : List (Moment J E)) (p : Pool J) : Prop where
  called : ∀ f : J → Nat,
    total f (jobsCalled h) + total f p.ledger.pending +
      total (fun th => total f th.uncalled) p.threads = total f (jobsAdded h)
  ended : ∀ f : J → Nat,
    total f ((jobsEnded h).map Prod.fst) + total f p.ledger.pending +
      total (fun th => total f th.unended) p.threads = total f (jobsAdded h)

theorem Turn.weigh_called (ht : Turn p t q es o) (hf : Flow p.ledger (p.thread t) o)
    (f : J → Nat) :
    total f (es.flatMap Event.calledJobs) + total f q.ledger.pending +
        total (fun th => total f th.uncalled) q.threads =
      total f (es.flatMap Event.addedJobs) + total f p.ledger.pending +
        total (fun th => total f th.uncalled) p.threads := by
  have hthreads := ht.total_threads (Thread.steady_uncalled f)
  have htaken := congrArg (total f) hf.taken
  have hcalled := congrArg (total f) hf.called
  simp only [total_append] at htaken hcalled
  rw [ht.events, ht.ledger]
  omega

theorem Turn.weigh_ended (ht : Turn p t q es o) (hf : Flow p.ledger (p.thread t) o)
    (f : J → Nat) :
    total f ((es.flatMap Event.endedJobs).map Prod.fst) + total f q.ledger.pending +
        total (fun th => total f th.unended) q.threads =
      total f (es.flatMap Event.addedJobs) + total f p.ledger.pending +
        total (fun th => total f th.unended) p.threads := by
  have hthreads := ht.total_threads (Thread.steady_unended f)
  have htaken := congrArg (total f) hf.taken
  have hended := congrArg (total f) hf.ended
  simp only [total_append] at htaken hended
  rw [ht.events, ht.ledger]
  omega

theorem Weighed.turn {h : List (Moment J E)} (hw : Weighed h p) (hs : Turns p t m q es) :
    Weighed (h ++ [⟨t, m, es⟩]) q := by
  obtain ⟨o, hs, ht⟩ := hs
  refine ⟨fun f => ?_, fun f => ?_⟩
  · have hbefore := hw.called f
    have hstep := ht.weigh_called hs.flow f
    simp only [jobsCalled, jobsAdded, collect_append, collect_singleton,
      total_append] at hbefore ⊢
    omega
  · have hbefore := hw.ended f
    have hstep := ht.weigh_ended hs.flow f
    simp only [jobsEnded, jobsAdded, collect_append, collect_singleton, List.map_append,
      total_append] at hbefore ⊢
    omega

theorem Weighed.subperm_called {h : List (Moment J E)} (hw : Weighed h p) :
    (jobsCalled h).Subperm (jobsAdded h) := by
  apply subperm_of_total
  intro f
  have := hw.called f
  omega

end CheckRounds
