import CheckRounds.Proofs.Job.Shift
import Mathlib.Data.List.Basic
/-!
Jobs that behave the same wherever and whenever they are carried out.

If the fate of each job is settled beforehand, a batch can leave only one trace: each
job is called, comes to its answer, is released, and has its crash logged, before the
next one is called. What a batch has yet to leave of its trace follows from its state
(`Execution.sequel`). Nothing keeps a batch from being carried out to its end, whatever
its jobs do meanwhile, unless a job crashes at both points
(`Execution.exists_steps_course`).
-/

namespace CheckRounds

variable {J E : Type} {fates : J → Fate}

deriving instance DecidableEq for Fate

namespace Fate

/-- The payload of the crash, if the job crashes. -/
def payload? : Fate → Option Payload
  | ⟨.ok _, crash⟩ => crash
  | ⟨.error payload, _⟩ => some payload

/-- The job does not crash at both points. -/
def Survivable : Fate → Prop
  | ⟨.error _, some _⟩ => False
  | _ => True

end Fate

/-- How a job behaves while it is carried out: what it does in its call and in its
release, and its fate. -/
structure Conduct (E : Type) where
  calling : List E := []
  fate : Fate
  releasing : List E := []

namespace Conduct

/-- What the job leaves in the trace from its release on. -/
def ending (c : Conduct E) (j : J) : List (JobEvent J E) :=
  c.releasing.map .effect ++ .released j c.fate :: c.fate.payload?.toList.map .crashLogged

/-- What the job leaves in the trace: what it does in its call, then its release, then
its crash, if it crashed. -/
def block (c : Conduct E) (j : J) : List (JobEvent J E) :=
  .called j :: (c.calling.map .effect ++ .concluded j c.fate.answer :: c.ending j)

end Conduct

namespace JobEvent

/-- The event tells of a job no more than its fate says. -/
def Obeys (fates : J → Fate) : JobEvent J E → Prop
  | .concluded j answer => answer = (fates j).answer
  | .released j fate => fate = fates j
  | _ => True

instance (fates : J → Fate) (e : JobEvent J E) : Decidable (e.Obeys fates) :=
  match e with
  | .concluded j answer => inferInstanceAs (Decidable (answer = (fates j).answer))
  | .released j fate => inferInstanceAs (Decidable (fate = fates j))
  | .called _ => isTrue trivial
  | .effect _ => isTrue trivial
  | .crashLogged _ => isTrue trivial

/-- What of an event is up to those who carry out jobs, and not to the jobs themselves. -/
def trace : JobEvent J E → List (JobEvent J E)
  | .effect _ => []
  | e => [e]

/-- The trace of a job from its release on. -/
def ending (fates : J → Fate) (j : J) : List (JobEvent J E) :=
  .released j (fates j) :: (fates j).payload?.toList.map .crashLogged

/-- The trace of a job. -/
def course (fates : J → Fate) (j : J) : List (JobEvent J E) :=
  .called j :: .concluded j (fates j).answer :: ending fates j

/-- A job that does nothing besides leaves no more than its fate says. -/
theorem obeys_of_mem_block {j : J} {e : JobEvent J E}
    (he : e ∈ Conduct.block { fate := fates j } j) : e.Obeys fates := by
  simp only [Conduct.block, Conduct.ending, List.map_nil, List.nil_append, List.mem_cons,
    List.mem_map] at he
  rcases he with rfl | rfl | rfl | ⟨payload, -, rfl⟩
  · trivial
  · rfl
  · rfl
  · trivial

theorem Obeys.outcome {e : JobEvent J E} (h : e.Obeys fates) :
    ∀ j ∈ e.endedJobs, j.2.outcome = (fates j.1).outcome := by
  cases e with
  | released j fate =>
    intro k hk
    obtain rfl := List.mem_singleton.1 hk
    exact congrArg Fate.outcome h
  | _ =>
    intro k hk
    cases hk

end JobEvent

namespace Execution

/-! ## What a batch leaves -/

/-- The trace that the batch has yet to leave. -/
def sequel (fates : J → Fate) (x : Execution J) : List (JobEvent J E) :=
  (match x.phase with
    | .between => []
    | .calling j => .concluded j (fates j).answer :: JobEvent.ending fates j
    | .releasing j _ => JobEvent.ending fates j
    | .crashed payload => [.crashLogged payload]) ++ x.rest.flatMap
        (JobEvent.course fates)

variable {x y : Execution J} {d : Deed E} {e : JobEvent J E}

theorem sequel_start (fates : J → Fate) (batch : List J) :
    (start batch).sequel fates = batch.flatMap (JobEvent.course (E := E) fates) := rfl

theorem sequel_of_finished (h : x.finished = true) :
    x.sequel fates = ([] : List (JobEvent J E)) := by
  unfold finished at h
  split at h
  · rename_i hp hr
    simp [sequel, hp, hr]
  · cases h

theorem payload_of_crash {j : J} {answer : Except Payload Bool} {crash : Option Payload}
    {payload : Payload} (hp : x.phase = .releasing j answer)
    (h : x.step (.discard crash : Deed E) =
      some ({ x with phase := .crashed payload }, .released j ⟨answer, crash⟩)) :
    Fate.payload? ⟨answer, crash⟩ = some payload := by
  cases answer <;> cases crash <;> simp [step, hp, afterRelease, Fate.payload?] at h ⊢
  all_goals exact h

theorem sequel_step (h : x.step d = some (y, e)) (ho : e.Obeys fates) :
    x.sequel fates = e.trace ++ y.sequel fates := by
  cases shift_of_step h with
  | call hp next => simp [sequel, hp, next, JobEvent.trace, JobEvent.course]
  | conclude hp =>
    obtain rfl := ho
    simp [sequel, hp, JobEvent.trace]
  | @pass j b hp =>
    have hfate : fates j = ⟨.ok b, none⟩ := ho.symm
    simp [sequel, hp, JobEvent.trace, JobEvent.ending, hfate, Fate.payload?]
  | @crash j answer crash payload hp =>
    have hfate : fates j = ⟨answer, crash⟩ := ho.symm
    simp [sequel, hp, JobEvent.trace, JobEvent.ending, hfate, payload_of_crash hp h]
  | log hp => simp [sequel, hp, JobEvent.trace]
  | effect => rfl

/-- Whether no job of the batch has failed or will fail. -/
def promising (ok : J → Bool) (x : Execution J) : Bool := x.clean && x.unended.all ok

theorem promising_step (h : x.step d = some (y, e)) {ok : J → Bool}
    (ho : ∀ j ∈ e.endedJobs, j.2.outcome = ok j.1) : y.promising ok = x.promising ok := by
  have hended : (e.endedJobs.map Prod.fst).all ok = e.endedJobs.all fun j =>
    j.2.outcome := by
    rw [List.all_map, Bool.eq_iff_iff, List.all_eq_true, List.all_eq_true]
    refine forall₂_congr fun j hj => ?_
    rw [ho j hj, Function.comp_apply]
  rw [promising, promising, clean_step h, unended_step h, List.all_append, hended,
    Bool.and_assoc]

theorem promising_start (ok : J → Bool) (batch : List J) :
    (start batch).promising ok = batch.all ok := rfl

theorem promising_of_finished (h : x.finished = true) (ok : J → Bool) :
    x.promising ok = x.tally.ok := by
  rw [promising, clean_of_finished h, unended_of_finished h, List.all_nil, Bool.and_true]

/-! ## Carrying out a batch -/

/-- The batch gets from the first state to the second one by these deeds, with these
events. -/
inductive Steps : Execution J → List (Deed E × JobEvent J E) → Execution J → Prop where
  | nil (x : Execution J) : Steps x [] x
  | cons {x y z : Execution J} {d : Deed E} {e : JobEvent J E}
      {ss : List (Deed E × JobEvent J E)}
      (first : x.step d = some (y, e)) (after : Steps y ss z) : Steps x ((d, e) :: ss) z

theorem Steps.size {ss : List (Deed E × JobEvent J E)} (h : Steps x ss y) :
    y.size = x.size := by
  induction h with
  | nil => rfl
  | cons first _ ih => rw [ih, size_step first]

/-- All jobs of a finished batch were carried out. -/
theorem Steps.executed {ss : List (Deed E × JobEvent J E)} {batch : List J}
    (h : Steps (start batch) ss y) (hf : y.finished = true) :
    y.tally.executed = batch.length := by
  have hsize : y.tally.executed + y.unfinished = batch.length :=
    h.size.trans (size_start batch)
  rwa [unfinished_of_finished hf] at hsize

theorem Steps.trans {z : Execution J} {ss ss' : List (Deed E × JobEvent J E)}
    (h : Steps x ss y) (h' : Steps y ss' z) : Steps x (ss ++ ss') z := by
  induction h with
  | nil => exact h'
  | cons first _ ih => exact .cons first (ih h')

/-- A release comes to its end, unless the job crashes at both points. -/
theorem exists_step_release {j : J} {fate : Fate} (hs : fate.Survivable)
    (hp : x.phase = .releasing j fate.answer) :
    ∃ y : Execution J,
      x.step (.discard fate.crash : Deed E) = some (y, .released j fate) ∧
      y.rest = x.rest ∧ (y.phase = .between ∧ fate.payload? = none ∨
        ∃ payload, y.phase = .crashed payload ∧ fate.payload? = some payload) := by
  obtain ⟨answer, crash⟩ := fate
  have hstep : x.step (.discard crash : Deed E) =
      (x.afterRelease answer crash).map fun y => (y, .released j ⟨answer, crash⟩) := by
    simp [step, hp]
  cases answer with
  | ok b =>
    cases crash with
    | none => exact ⟨_, hstep.trans rfl, rfl, .inl ⟨rfl, rfl⟩⟩
    | some payload => exact ⟨_, hstep.trans rfl, rfl, .inr ⟨payload, rfl, rfl⟩⟩
  | error payload =>
    cases crash with
    | none => exact ⟨_, hstep.trans rfl, rfl, .inr ⟨payload, rfl, rfl⟩⟩
    | some _ => exact hs.elim

/-- The code of a job may have effects as long as it runs. -/
theorem steps_effects (es : List E) (hx : x.inJob = true) :
    Steps x (es.map fun e => (.effect e, .effect e)) (x : Execution J) := by
  have hstep : ∀ e : E, x.step (.effect e) = some (x, .effect e) := by
    intro e
    cases hp : x.phase with
    | between | crashed => simp [inJob, current?, hp] at hx
    | calling | releasing => simp [step, hp]
  induction es with
  | nil => exact .nil x
  | cons e es ih => exact .cons (hstep e) ih

/-- The next job can be carried out as its conduct has it. -/
theorem exists_steps_job {j : J} {rest : List J} (c : Conduct E) (hc : c.fate.Survivable)
    (hp : x.phase = .between) (hr : x.rest = j :: rest) :
    ∃ (ss : List (Deed E × JobEvent J E)) (y : Execution J), Steps x ss y ∧
      y.phase = .between ∧ y.rest = rest ∧ ss.map Prod.snd = c.block j := by
  have hcall : x.step (.proceed : Deed E) = some ({ x with phase := .calling j, rest },
      .called j) := by
    simp [step, hp, hr]
  have hconclude :
      step { x with phase := .calling j, rest } (.conclude c.fate.answer : Deed E) =
      some ({ x with phase := .releasing j c.fate.answer, rest },
        .concluded j c.fate.answer) := rfl
  have hcalling := steps_effects (x := { x with phase := .calling j, rest }) c.calling rfl
  have hreleasing :=
    steps_effects (x := { x with phase := .releasing j c.fate.answer, rest })
    c.releasing rfl
  obtain ⟨y, hrelease, hrest, hphase⟩ := exists_step_release (E := E)
    (x := { x with phase := .releasing j c.fate.answer, rest }) hc rfl
  have hjob := Steps.cons hcall (hcalling.trans (.cons hconclude (hreleasing.trans
    (.cons hrelease (.nil y)))))
  rcases hphase with ⟨hphase, hpayload⟩ | ⟨payload, hphase, hpayload⟩
  · exact ⟨_, y, hjob, hphase,
      hrest, by simp [Conduct.block, Conduct.ending, Function.comp_def, hpayload]⟩
  · have hlog : y.step (.proceed : Deed E) =
        some ({ y with phase := .between, tally := y.tally.count .crashed },
          .crashLogged payload) := by
      simp [step, hphase]
    exact ⟨_, _, hjob.trans (.cons hlog (.nil _)), rfl, hrest,
      by simp [Conduct.block, Conduct.ending, Function.comp_def, hpayload]⟩

/-- A batch can be carried out as the conducts of its jobs have it. -/
theorem exists_steps_course {course : List (J × Conduct E)}
    (hc : ∀ c ∈ course, c.2.fate.Survivable) (hp : x.phase = .between)
    (hr : x.rest = course.map Prod.fst) :
    ∃ (ss : List (Deed E × JobEvent J E)) (y : Execution J), Steps x ss y ∧
      y.finished = true ∧ ss.map Prod.snd = course.flatMap fun c => c.2.block c.1 := by
  induction course generalizing x with
  | nil => exact ⟨[], x, .nil x, by simp [finished, hp, hr], rfl⟩
  | cons c course ih =>
    obtain ⟨ss, y, hjob, hy, hyrest, hblock⟩ :=
      exists_steps_job c.2 (hc c (by simp)) hp hr
    obtain ⟨ss', z, hsteps, hfinished, hblocks⟩ :=
      ih (fun d hd => hc d (by simp [hd])) hy hyrest
    exact ⟨ss ++ ss', z, hjob.trans hsteps, hfinished, by simp [hblock, hblocks]⟩

/-- A batch of jobs can be carried out as their fates have it. -/
theorem exists_steps (hfates : ∀ j ∈ x.rest, (fates j).Survivable)
    (hp : x.phase = .between) :
    ∃ (ss : List (Deed E × JobEvent J E)) (y : Execution J), Steps x ss y ∧
      y.finished = true ∧ ∀ s ∈ ss, s.2.Obeys fates := by
  let course : List (J × Conduct E) := x.rest.map fun j => (j, { fate := fates j })
  have hcourse : ∀ c ∈ course, c.2.fate.Survivable ∧ c.2 = { fate := fates c.1 } := by
    intro c hc
    obtain ⟨j, hj, rfl⟩ := List.mem_map.1 hc
    exact ⟨hfates j hj, rfl⟩
  obtain ⟨ss, y, hsteps, hfinished, hblocks⟩ :=
    exists_steps_course (fun c hc => (hcourse c hc).1) hp
      (by simp [course, Function.comp_def])
  refine ⟨ss, y, hsteps, hfinished, fun s hs => ?_⟩
  have hmem : s.2 ∈ course.flatMap fun c =>
    c.2.block c.1 := hblocks ▸ List.mem_map_of_mem hs
  obtain ⟨c, hc, he⟩ := List.mem_flatMap.1 hmem
  rw [(hcourse c hc).2] at he
  exact JobEvent.obeys_of_mem_block he

end Execution

end CheckRounds
