import CheckRounds.Detached
import CheckRounds.Proofs.Pool.Script
/-!
What a round without a pool comes to.

The books that are kept on the rounds of a pool (`Account`) are right for a detached
round as well, although it carries out its jobs at other moments: when they are added,
and not when a verdict is asked for.
-/

namespace CheckRounds

namespace Detached

variable {J E : Type} {t : Nat} {h k : List (Moment J E)} {m : Move J E}
  {es : List (Event J E)} {d d' : Detached J} {fates : J → Fate} {ok : J → Bool}
  {a : Account J} {logged : List (Nat × Bool)} {told : List Bool}

/-- Thread `t` can get its detached round from the first state to the second one with
this history. -/
inductive Run (t : Nat) (c : Detached J) : List (Moment J E) → Detached J → Prop where
  | nil : Run t c [] c
  | snoc {d e : Detached J} {h : List (Moment J E)} {m : Move J E}
      {events : List (Event J E)}
      (before : Run t c h d) (last : d.step m = some (e, events)) : Run t c
      (h ++ [⟨t, m, events⟩]) e

/-! ## One step -/

/-- What a step of a detached round can do. -/
inductive Shift (d : Detached J) : Move J E → Detached J → List (Event J E) → Prop where
  | addNone (idle : d.work = none) (active : d.closed = false) : Shift d (.add []) d []
  | add {jobs} (idle : d.work = none) (active : d.closed = false) (some_job : jobs ≠ []) :
      Shift d (.add jobs)
        { d with
          verdict := none, added := d.added + jobs.length, work := some (.start jobs) } []
  | retell {v} (idle : d.work = none) (active : d.closed = false)
      (verdict : d.verdict = some v) :
      Shift d .wait d [.returned (.verdict v)]
  | tell (idle : d.work = none) (active : d.closed = false) (verdict : d.verdict = none) :
      Shift d .wait { d with verdict := some d.allOk, allOk := true }
        [.completed d.added d.allOk, .returned (.verdict d.allOk)]
  | dismiss {v u} (idle : d.work = none) (active : d.closed = false)
      (verdict : d.verdict = some v) :
      Shift d (.close u) { d with closed := true } [.closed]
  | close {u} (idle : d.work = none) (active : d.closed = false)
      (verdict : d.verdict = none) :
      Shift d (.close u) { d with verdict := some d.allOk, allOk := true, closed := true }
        [.completed d.added d.allOk, .closed]
  | work {x y deed e} (busy : d.work = some x) (step : x.step deed = some (y, e)) :
      Shift d (.work deed) { d with work := some y } [.job e]
  | finish {x} (busy : d.work = some x) (finished : x.finished = true) :
      Shift d .advance { d with work := none, allOk := d.allOk && x.tally.ok } []

theorem shift_of_stepIdle (idle : d.work = none) (active : d.closed = false)
    (h : d.stepIdle m = some (d', es)) : d.Shift m d' es := by
  unfold stepIdle at h
  split at h
  case h_1 jobs =>
    split at h
    · rename_i hnone
      cases h
      obtain rfl := List.isEmpty_iff.1 hnone
      exact .addNone idle active
    · rename_i hsome
      cases h
      exact .add idle active (by simpa using hsome)
  case h_2 =>
    split at h
    · rename_i hv
      cases h
      exact .retell idle active hv
    · rename_i hv
      cases h
      exact .tell idle active hv
  case h_3 =>
    split at h
    · rename_i hv
      cases h
      exact .dismiss idle active hv
    · rename_i hv
      cases h
      exact .close idle active hv
  case h_4 => cases h

theorem shift_of_step (h : d.step m = some (d', es)) : d.Shift m d' es := by
  unfold step at h
  split at h
  case h_1 idle =>
    split at h
    · cases h
    · rename_i active
      exact shift_of_stepIdle idle (by simpa using active) h
  case h_2 busy =>
    split at h
    · rename_i hx
      cases h
      exact .work busy hx
    · cases h
  case h_3 busy =>
    split at h
    · rename_i hx
      cases h
      exact .finish busy hx
    · cases h
  case h_4 => cases h

/-- A step shows of the calls on rounds only what its move says. -/
theorem Shift.openings_eq_nil (hs : d.Shift m d' es) :
    es.flatMap Event.openings = [] := by
  cases hs <;> rfl

/-! ## The books -/

/-- Whether no job failed or will fail of those that the next verdict is about. -/
def promising (ok : J → Bool) (d : Detached J) : Bool :=
  d.allOk && d.work.all (Execution.promising ok)

/-- The books on a detached round agree with what was logged and answered, and with its
state. -/
structure Keeps (ok : J → Bool) (a : Account J) (logged : List (Nat × Bool))
    (told : List Bool) (d : Detached J) : Prop where
  completions : a.completions = logged
  answers : a.answers = told
  added : a.added = d.added
  drained : a.drained = d.verdict.isSome
  undecided : d.verdict = none → a.verdict ok = d.promising ok
  decided : ∀ v, d.verdict = some v → a.verdict ok = v ∧ d.work = none ∧ d.allOk = true

theorem Keeps.new (ok : J → Bool) : Keeps ok (account ok [.opening]) [] [] new :=
  ⟨rfl, rfl, rfl, rfl, fun _ => rfl, fun _ hv => by cases hv⟩

/-- A drain is booked with the verdict that the round has come to. -/
theorem Keeps.drain (hk : Keeps ok a logged told d) (idle : d.work = none)
    (verdict : d.verdict = none) :
    (a.drain ok).verdict ok = d.allOk ∧
    Keeps ok (a.drain ok) (logged ++ [(d.added, d.allOk)]) told
      { d with verdict := some d.allOk, allOk := true } := by
  have hopen : a.drained = false := by rw [hk.drained, verdict]; rfl
  have hverdict : a.verdict ok = d.allOk := by
    simp [hk.undecided verdict, promising, idle]
  rw [Account.drain_of_not_drained ok hopen]
  refine ⟨hverdict, ?_, hk.answers, hk.added, rfl, fun hv => by simp at hv,
    fun v hv => ?_⟩
  · rw [hk.completions, hk.added, hverdict]
  · exact ⟨hverdict.trans (Option.some.inj hv), idle, rfl⟩

theorem Keeps.tell {v : Bool} (hk : Keeps ok a logged told d) (hv : a.verdict ok = v) :
    Keeps ok (a.tell ok) logged (told ++ [v]) d where
  completions := hk.completions
  answers := by rw [Account.tell, hk.answers, hv]
  added := hk.added
  drained := hk.drained
  undecided := hk.undecided
  decided := hk.decided

/-- While its jobs are carried out, nothing about a round changes that the books tell
of. -/
theorem Keeps.busy {x : Execution J} (hk : Keeps ok a logged told d)
    (hb : d.work = some x) (ha : d'.added = d.added) (hv : d'.verdict = d.verdict)
    (hp : d'.promising ok = d.promising ok) :
    Keeps ok a logged told d' := by
  have hnone : d.verdict = none := by
    cases hverdict : d.verdict with
    | none => rfl
    | some v =>
      have hidle := (hk.decided v hverdict).2.1
      simp [hb] at hidle
  exact ⟨hk.completions, hk.answers, by rw [ha, hk.added], by rw [hv, hk.drained],
    fun _ => by rw [hp, hk.undecided hnone], fun v hsome => by simp [hv, hnone] at hsome⟩

theorem Shift.keeps (hs : d.Shift m d' es)
    (ho : ∀ j ∈ es.flatMap Event.endedJobs, j.2.outcome = ok j.1)
    (hk : Keeps ok a logged told d) :
    Keeps ok (m.calls.foldl (Account.call ok) a) (logged ++ es.flatMap Event.completions)
      (told ++ es.flatMap Event.answers) d' := by
  cases hs with
  | addNone => simpa [Move.calls] using hk
  | @add jobs idle _ hj =>
    have hcalls : (Move.add jobs : Move J E).calls = [.add jobs] := by
      simp [Move.calls, hj]
    rw [hcalls]
    change Keeps ok (a.call ok (.add jobs)) (logged ++ []) (told ++ []) _
    rw [List.append_nil, List.append_nil]
    refine ⟨hk.completions, hk.answers, congrArg (· + jobs.length) hk.added, rfl,
      fun _ => ?_, fun v hv => by simp at hv⟩
    -- Late jobs start the books on the next verdict, others join those that are not
    -- drained yet.
    change (if a.drained then jobs else a.jobs ++ jobs).all ok =
      (d.allOk && (Execution.start jobs).promising ok)
    rw [hk.drained, Execution.promising_start]
    cases hverdict : d.verdict with
    | none =>
      have hjobs : a.jobs.all ok = (d.allOk && d.work.all (Execution.promising ok)) :=
        hk.undecided hverdict
      rw [idle, Option.all_none, Bool.and_true] at hjobs
      simp [hjobs]
    | some v => simp [(hk.decided v hverdict).2.2]
  | @retell v idle _ hv =>
    have hdrained : a.drained = true := by rw [hk.drained, hv]; rfl
    have hcall : a.call ok .wait = a.tell ok := by
      rw [Account.call, Account.drain_of_drained ok hdrained]
    change Keeps ok (a.call ok .wait) (logged ++ []) (told ++ [v]) d
    rw [hcall, List.append_nil]
    exact hk.tell (hk.decided v hv).1
  | tell idle _ hv =>
    obtain ⟨hverdict, hdrain⟩ := hk.drain idle hv
    change Keeps ok ((a.drain ok).tell ok) (logged ++ [(d.added, d.allOk)])
        (told ++ [d.allOk]) _
    exact hdrain.tell hverdict
  | @dismiss v u idle _ hv =>
    have hdrained : a.drained = true := by rw [hk.drained, hv]; rfl
    change Keeps ok (a.drain ok) (logged ++ []) (told ++ []) _
    rw [Account.drain_of_drained ok hdrained, List.append_nil, List.append_nil]
    exact ⟨hk.completions, hk.answers, hk.added, hk.drained, hk.undecided, hk.decided⟩
  | close idle _ hv =>
    obtain ⟨_, hdrain⟩ := hk.drain idle hv
    change Keeps ok (a.drain ok) (logged ++ [(d.added, d.allOk)]) (told ++ []) _
    rw [List.append_nil]
    exact ⟨hdrain.completions, hdrain.answers, hdrain.added, hdrain.drained,
      hdrain.undecided, hdrain.decided⟩
  | @work x y deed e hb hx =>
    change Keeps ok a (logged ++ []) (told ++ []) _
    rw [List.append_nil, List.append_nil]
    refine hk.busy hb rfl rfl ?_
    simp only [List.flatMap_singleton, Event.endedJobs] at ho
    simp [promising, hb, Execution.promising_step hx ho]
  | @finish x hb hx =>
    change Keeps ok a (logged ++ []) (told ++ []) _
    rw [List.append_nil, List.append_nil]
    refine hk.busy hb rfl rfl ?_
    simp [promising, hb, Execution.promising_of_finished hx]

/-! ## The trace -/

/-- The trace that the round has yet to leave of the jobs that were added to it. -/
def sequel (fates : J → Fate) (d : Detached J) : List (JobEvent J E) :=
  d.work.elim [] (Execution.sequel fates)

theorem Shift.sequel (hs : d.Shift m d' es) (ho : ∀ e ∈ es, e.Obeys fates) :
    d.sequel fates ++ m.submitted.flatMap (JobEvent.course fates) =
      es.flatMap Event.trace ++ d'.sequel fates := by
  cases hs with
  | addNone | retell | tell | dismiss | close =>
    simp [Move.submitted, Event.trace, Detached.sequel]
  | add idle => simp [Move.submitted, Detached.sequel, idle, Execution.sequel_start]
  | @work x y deed e hb hx =>
    have hobeys : e.Obeys fates := ho (.job e) (by simp)
    simp [Move.submitted, Detached.sequel, hb, Event.trace,
      Execution.sequel_step hx hobeys]
  | finish hb hx =>
    simp [Move.submitted, Detached.sequel, hb, Execution.sequel_of_finished hx]

/-! ## A run -/

theorem roundCalls_concat (ho : es.flatMap Event.openings = []) :
    roundCalls (h ++ [⟨t, m, es⟩]) = roundCalls h ++ m.calls := by
  simp [roundCalls, Moment.calls, ho]

/-- What a detached round is asked is all that it is called for: nobody opens it. -/
theorem Run.roundCalls_eq {c : Detached J} (hr : Run t c h d) :
    roundCalls h = (asked h).flatMap Move.calls := by
  induction hr with
  | nil => rfl
  | @snoc _ _ h m es _ last ih =>
    have hlast : (asked [⟨t, m, es⟩]).flatMap Move.calls = m.calls := by
      cases m with
      | add jobs | wait | close unwinding => exact List.append_nil _
      | _ => rfl
    rw [roundCalls_concat (shift_of_step last).openings_eq_nil, ih, asked_append,
      List.flatMap_append, hlast]

theorem Run.keeps (hr : Run t new h d) (hf : Follows ok h) :
    Keeps ok (account ok (.opening :: roundCalls h)) (completions h) (answers h) d := by
  induction hr with
  | nil => exact .new ok
  | snoc before last ih =>
    have hs := shift_of_step last
    obtain ⟨hfirst, hlast⟩ := hf.of_append
    have hk := hs.keeps (by simpa [Follows, jobsEnded] using hlast) (ih hfirst)
    rw [roundCalls_concat hs.openings_eq_nil, ← List.cons_append, account_append]
    simpa [completions, answers] using hk

/-- The trace so far, and what the jobs have yet to leave that are carried out, are the
courses of the jobs that were handed over. -/
theorem Run.traced (hr : Run t new h d) (hf : Fated fates h) :
    jobTrace h ++ d.sequel fates =
      ((roundCalls h).flatMap RoundCall.jobs).flatMap (JobEvent.course fates) := by
  induction hr with
  | nil => rfl
  | @snoc d e h m es before last ih =>
    have hs := shift_of_step last
    obtain ⟨hfirst, hlast⟩ := fated_append.1 hf
    have hstep := hs.sequel (fated_singleton.1 hlast)
    have hbefore := ih hfirst
    rw [roundCalls_concat hs.openings_eq_nil, List.flatMap_append, List.flatMap_append,
      ← hbefore, ← Move.submitted_eq, List.append_assoc, hstep, ← List.append_assoc]
    simp [jobTrace]

theorem Shift.idle_of_closed (hs : d.Shift m d' es) (hd : d.closed = true → d.work = none)
    (hd' : d'.closed = true) : d'.work = none := by
  cases hs with
  | addNone idle | retell idle | tell idle | dismiss idle | close idle => exact idle
  | add _ active => simp [active] at hd'
  | work hb => simp [hd hd'] at hb
  | finish => rfl

/-- A round that is closed has no jobs under way. -/
theorem Run.idle_of_closed (hr : Run t new h d) (hd : d.closed = true) :
    d.work = none := by
  induction hr with
  | nil => rfl
  | snoc before last ih => exact (shift_of_step last).idle_of_closed ih hd

theorem Run.jobTrace_eq (hr : Run t new h d) (hd : d.closed = true) (hf : Fated fates h) :
    jobTrace h =
      ((roundCalls h).flatMap RoundCall.jobs).flatMap (JobEvent.course fates) := by
  have htraced := hr.traced hf
  rwa [sequel, hr.idle_of_closed hd, Option.elim_none, List.append_nil] at htraced

/-! ## Scripts -/

variable {c e : Detached J} {script : List (Move J E)}

theorem Run.trans (hr : Run t c h d) (hr' : Run t d k e) : Run t c (h ++ k) e := by
  induction hr' with
  | nil => rwa [List.append_nil]
  | snoc _ last ih => rw [← List.append_assoc]; exact .snoc ih last

theorem Run.single {m : Move J E} {es : List (Event J E)} (hs : c.step m = some (d, es)) :
    Run t c [⟨t, m, es⟩] d := Run.nil.snoc hs

theorem Run.of_steps {x y : Execution J} {ss : List (Deed E × JobEvent J E)}
    (hs : x.Steps ss y) (hd : d.work = some x) :
    Run t d (ss.map (worked t)) { d with work := some y } := by
  induction hs generalizing d with
  | nil x =>
    rw [← hd]
    exact .nil
  | @cons x y z deed e ss first _ ih =>
    have hstep : d.step (.work deed) = some ({ d with work := some y }, [.job e]) := by
      simp [step, hd, first]
    exact (Run.single hstep).trans (ih (d := { d with work := some y }) rfl)

/-- An idle round that is not closed can do what it is asked to do next. -/
theorem exists_run_call {m : Move J E} (idle : d.work = none) (active : d.closed = false)
    (hm : m = .wait ∨ ∃ jobs, m = .add jobs)
    (hfates : ∀ j ∈ m.submitted, (fates j).Survivable) :
    ∃ (k : List (Moment J E)) (e : Detached J), Run t d k e ∧ e.work = none ∧
      e.closed = false ∧ Performs fates [m] k := by
  rcases hm with rfl | ⟨jobs, rfl⟩
  · cases hv : d.verdict with
    | some v =>
      have hstep : d.step (.wait : Move J E) = some (d, [.returned (.verdict v)]) := by
        simp [step, stepIdle, idle, active, hv]
      exact ⟨_, d, .single hstep, idle, active, rfl, rfl, rfl,
        fated_singleton.2 (by simp [Event.Obeys])⟩
    | none =>
      have hstep :
          d.step (.wait : Move J E) =
          some ({ d with verdict := some d.allOk, allOk := true },
          [.completed d.added d.allOk, .returned (.verdict d.allOk)]) := by
        simp [step, stepIdle, idle, active, hv, drain]
      exact ⟨_, _, .single hstep, idle, active, rfl, rfl, rfl,
        fated_singleton.2 (by simp [Event.Obeys])⟩
  · by_cases hj : jobs = []
    · subst hj
      have hstep : d.step (.add [] : Move J E) = some (d, []) := by
        simp [step, stepIdle, idle, active]
      exact ⟨_, d, .single hstep, idle, active, rfl, rfl, rfl,
        fated_singleton.2 (by simp)⟩
    · have hstep : d.step (.add jobs : Move J E) = some ({ d with
          verdict := none, added := d.added + jobs.length,
          work := some (.start jobs) }, []) := by
        simp [step, stepIdle, idle, active, hj]
      have hjobs : ∀ j ∈ (Execution.start jobs).rest, (fates j).Survivable := hfates
      obtain ⟨ss, y, hsteps, hfinished, hobeys⟩ :=
        Execution.exists_steps (E := E) hjobs rfl
      have hadd : Performs (E := E) fates [.add jobs] [⟨t, .add jobs, []⟩] :=
        ⟨rfl, by simp [roundCalls, Moment.calls], rfl, fated_singleton.2 (by simp)⟩
      have hdone : Performs (E := E) fates [] [⟨t, .advance, []⟩] :=
        ⟨rfl, rfl, rfl, fated_singleton.2 (by simp)⟩
      have hwork : Run t d ([⟨t, .add jobs, []⟩] ++ ss.map (worked t)) _ :=
        (Run.single hstep).trans (.of_steps hsteps rfl)
      have hfinish :
          step { d with verdict := none, added := d.added + jobs.length, work := some y }
          (.advance : Move J E) = some ({ d with
            verdict := none, added := d.added + jobs.length, work := none,
            allOk := d.allOk && y.tally.ok }, []) := by
        simp [step, hfinished]
      exact ⟨_, _, hwork.trans (.single hfinish), rfl, active,
        (hadd.append (.worked t hobeys)).append hdone⟩

theorem exists_run_script (t : Nat)
    (hscript : ∀ m ∈ script, m = .wait ∨ ∃ jobs, m = .add jobs)
    (hfates : ∀ m ∈ script, ∀ j ∈ m.submitted, (fates j).Survivable) :
    ∃ (k : List (Moment J E)) (d : Detached J), Run t new k d ∧ d.work = none ∧
      d.closed = false ∧ Performs fates script k := by
  induction script using List.reverseRecOn with
  | nil => exact ⟨[], new, .nil, rfl, rfl, .nil⟩
  | append_singleton script m ih =>
    obtain ⟨k, d, hk, hidle, hactive, hperforms⟩ :=
      ih (fun m hm => hscript m (by simp [hm]))
      (fun m hm => hfates m (by simp [hm]))
    obtain ⟨k', e, hk', hidle', hactive', hperforms'⟩ :=
      exists_run_call hidle hactive (hscript m (by simp)) (hfates m (by simp))
    exact ⟨k ++ k', e, hk.trans hk', hidle', hactive', hperforms.append hperforms'⟩

/-- A detached round can follow every script, and then be closed. -/
theorem exists_run (t : Nat) (hscript : ∀ m ∈ script, m = .wait ∨ ∃ jobs, m = .add jobs)
    (hfates : ∀ m ∈ script, ∀ j ∈ m.submitted, (fates j).Survivable) (unwinding : Bool) :
    ∃ (k : List (Moment J E)) (d : Detached J), Run t new k d ∧ d.closed = true ∧
      Performs fates (script ++ [.close unwinding]) k := by
  obtain ⟨k, d, hk, idle, active, hperforms⟩ := exists_run_script t hscript hfates
  obtain ⟨e, es, hstep, hclosed, hquiet⟩ : ∃ (e : Detached J) (es : List (Event J E)),
      d.step (.close unwinding) = some (e, es) ∧ e.closed = true ∧
        Performs fates [.close unwinding] [⟨t, .close unwinding, es⟩] := by
    cases hv : d.verdict with
    | some v =>
      exact ⟨_, _, by simp [step, stepIdle, idle, active, hv]; exact ⟨rfl, rfl⟩, rfl, rfl,
        rfl, rfl, fated_singleton.2 (by simp [Event.Obeys])⟩
    | none =>
      exact ⟨_, _, by simp [step, stepIdle, idle, active, hv, drain]; exact ⟨rfl, rfl⟩,
        rfl, rfl, rfl, rfl, fated_singleton.2 (by simp [Event.Obeys])⟩
  exact ⟨_, e, hk.trans (.single hstep), hclosed, hperforms.append hquiet⟩

end Detached

end CheckRounds
