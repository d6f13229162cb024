import CheckRounds.Proofs.Pool.Journal
/-!
A batch is carried out job by job.

Whatever the jobs of a batch do, the trace of the batch is made of one block for each of
them, in the order of the batch: what the job does while it is called, its release, and
then, exactly if it crashed, one log entry with the text of its payload. At any moment a
batch has left an initial part of such a trace, and can get to its end from there. The
tally counts all jobs of the batch, those that failed, and those that crashed.
-/

namespace CheckRounds

variable {J E : Type}

/-- The text of a payload that is one. -/
def Payload.text? : Payload → Option String
  | fixed s => some s
  | made s => some s
  | other => none

/-- The text that an event of a batch leaves in the log. -/
def JobEvent.logText? : JobEvent J E → Option String
  | .crashLogged payload => some payload.message
  | _ => none

namespace Conduct

/-- The text of the crash, if the job crashed. -/
def crashText? (c : Conduct E) : Option String :=
  c.fate.payload?.map fun payload => payload.text?.getD "non-string panic payload"

theorem filterMap_logText?_block (c : Conduct E) (j : J) :
    (c.block j).filterMap JobEvent.logText? = c.crashText?.toList := by
  have hmessage : ∀ payload : Payload,
      payload.message = payload.text?.getD "non-string panic payload" := by
    intro payload
    cases payload <;> rfl
  have heffects : ∀ es : List E,
      (es.map JobEvent.effect).filterMap (JobEvent.logText? : JobEvent J E →
        Option String) = [] := by
    intro es
    simp [List.filterMap_map, Function.comp_def, JobEvent.logText?]
  have hlog : ∀ p : Option Payload,
      (p.toList.map JobEvent.crashLogged).filterMap (JobEvent.logText? : JobEvent J E →
        Option String) =
        (p.map fun payload => payload.text?.getD "non-string panic payload").toList := by
    intro p
    cases p with
    | none => rfl
    | some payload => exact congrArg (fun s => [s]) (hmessage payload)
  simp only [block, ending, crashText?, List.filterMap_cons, List.filterMap_append,
    heffects, hlog, List.nil_append, JobEvent.logText?]

theorem flatMap_endedJobs_block (c : Conduct E) (j : J) :
    (c.block j).flatMap JobEvent.endedJobs = [(j, c.fate)] := by
  have heffects : ∀ es : List E,
      (es.map JobEvent.effect).flatMap (JobEvent.endedJobs : JobEvent J E →
        List (J × Fate)) = [] := by
    intro es
    simp [List.flatMap_map, JobEvent.endedJobs]
  cases hp : c.fate.payload? <;> simp [block, ending, JobEvent.endedJobs, heffects, hp]

end Conduct

namespace Execution

variable {x y z : Execution J} {d : Deed E} {e : JobEvent J E}
  {ss : List (Deed E × JobEvent J E)}

/-- A batch keeps record of the jobs that ended. -/
theorem Steps.record (h : Steps x ss y) :
    y.record = (((ss.map Prod.snd).flatMap JobEvent.endedJobs).map
      fun j => j.2.verdict).foldl
      Tally.count x.record := by
  induction h with
  | nil => rfl
  | cons first _ ih =>
    rw [ih, record_step first, List.map_cons, List.flatMap_cons, List.map_append,
      List.foldl_append]

/-! ## The end of a block -/

/-- These events may still come of the block of the job that a batch is at. -/
inductive Closes : Phase J → List (JobEvent J E) → Prop where
  | between : Closes .between []
  | calling {j} (c : Conduct E) (survives : c.fate.Survivable) :
      Closes (.calling j)
        (c.calling.map .effect ++ .concluded j c.fate.answer :: c.ending j)
  | releasing {j} (c : Conduct E) (survives : c.fate.Survivable) :
      Closes (.releasing j c.fate.answer) (c.ending j)
  | crashed {payload} : Closes (.crashed payload) [.crashLogged payload]

theorem survivable_of_step {j : J} {answer : Except Payload Bool} {crash : Option Payload}
    (hp : x.phase = .releasing j answer)
    (h : x.step (.discard crash : Deed E) = some (y, e)) :
    Fate.Survivable ⟨answer, crash⟩ := by
  cases answer <;> cases crash <;> simp [step, hp, afterRelease, Fate.Survivable] at h ⊢

/-- An effect of a running job belongs to its block. -/
theorem Closes.effect {e : E} {closing : List (JobEvent J E)} (hx : x.inJob = true)
    (hc : Closes x.phase closing) : Closes x.phase (.effect e :: closing) := by
  revert hx hc
  generalize hp : x.phase = phase
  intro hx hc
  cases hc with
  | between | crashed => simp [inJob, current?, hp] at hx
  | calling c survives => exact .calling { c with calling := e :: c.calling } survives
  | releasing c survives =>
    exact .releasing { c with releasing := e :: c.releasing } survives

/-- What a step leaves is the next part of the block of the job that the batch is at, or
the beginning of the block of its next job. -/
theorem Closes.step (h : x.step d = some (y, e)) {closing : List (JobEvent J E)}
    (hc : Closes y.phase closing) :
    Closes x.phase (e :: closing) ∧ x.rest = y.rest ∨
      ∃ j, ∃ c : Conduct E, x.phase = .between ∧ x.rest = j :: y.rest ∧
        c.fate.Survivable ∧ e :: closing = c.block j := by
  cases shift_of_step h with
  | @call j rest hp next =>
    cases hc with
    | calling c survives => exact .inr ⟨j, c, hp, next, survives, rfl⟩
  | @conclude j answer hp =>
    rw [hp]
    cases hc with
    | releasing c survives => exact .inl ⟨.calling { c with calling := [] } survives, rfl⟩
  | @pass j b hp =>
    rw [hp]
    cases hc with
    | between => exact .inl ⟨.releasing { fate := ⟨.ok b, none⟩ } trivial, rfl⟩
  | @crash j answer crash payload hp =>
    have survives : Fate.Survivable ⟨answer, crash⟩ := survivable_of_step hp h
    have hpayload : Fate.payload? ⟨answer, crash⟩ = some payload := payload_of_crash hp h
    rw [hp]
    cases hc with
    | crashed =>
      have hc :=
        Closes.releasing (j := j) { fate := ⟨answer, crash⟩ : Conduct E } survives
      simp only [Conduct.ending, hpayload] at hc
      exact .inl ⟨hc, rfl⟩
  | log hp =>
    rw [hp]
    cases hc with
    | between => exact .inl ⟨.crashed, rfl⟩
  | effect job => exact .inl ⟨hc.effect job, rfl⟩

/-- A batch that gets to its end leaves the end of the block that it is at, and a block
for each job that it has yet to call. -/
theorem Steps.course (h : Steps x ss y) (hf : y.finished = true) :
    ∃ (closing : List (JobEvent J E)) (course : List (J × Conduct E)),
      Closes x.phase closing ∧
      course.map Prod.fst = x.rest ∧ (∀ c ∈ course, c.2.fate.Survivable) ∧
      ss.map Prod.snd = closing ++ course.flatMap fun c => c.2.block c.1 := by
  induction h with
  | nil x =>
    unfold finished at hf
    split at hf
    · rename_i hp hr
      exact ⟨[], [], hp ▸ .between, by simp [hr], by simp, rfl⟩
    · cases hf
  | @cons x y z d e ss first after ih =>
    obtain ⟨closing, course, hc, hcourse, hsurvive, hevents⟩ := ih hf
    rcases hc.step first with ⟨hx, hrest⟩ | ⟨j, c, hp, hrest, survives, hblock⟩
    · exact ⟨e :: closing, course, hx, hrest ▸ hcourse, hsurvive, by simp [hevents]⟩
    · refine ⟨[], (j, c) :: course, hp ▸ .between, by simp [hrest, hcourse], ?_, ?_⟩
      · intro d hd
        rcases List.mem_cons.1 hd with rfl | hd
        · exact survives
        · exact hsurvive d hd
      · simp [hevents, ← hblock]

/-! ## The way to the end -/

/-- A job that is at its release can get through it. -/
theorem exists_steps_of_releasing {j : J} {answer : Except Payload Bool}
    (hp : x.phase = .releasing j answer) :
    ∃ (ss : List (Deed E × JobEvent J E)) (y : Execution J), Steps x ss y ∧
    y.phase = .between := by
  let fate : Fate := ⟨answer, none⟩
  have hs : fate.Survivable := by cases answer <;> trivial
  obtain ⟨y, hrelease, -, ⟨hy, -⟩ | ⟨payload, hy, -⟩⟩ :=
    exists_step_release (E := E) hs hp
  · exact ⟨_, y, .cons hrelease (.nil y), hy⟩
  · have hlog : y.step (.proceed : Deed E) =
        some ({ y with phase := .between, tally := y.tally.count .crashed },
          .crashLogged payload) := by
      simp [step, hy]
    exact ⟨_, _, .cons hrelease (.cons hlog (.nil _)), rfl⟩

/-- A batch can get to its end from wherever it is. -/
theorem exists_steps_finished (x : Execution J) :
    ∃ (ss : List (Deed E × JobEvent J E)) (y : Execution J), Steps x ss y ∧
    y.finished = true := by
  have hbetween : ∃ (ss : List (Deed E × JobEvent J E)) (y : Execution J),
      Steps x ss y ∧ y.phase = .between := by
    cases hp : x.phase with
    | between => exact ⟨[], x, .nil x, hp⟩
    | calling j =>
      have hconclude : x.step (.conclude (.ok true) : Deed E) =
          some ({ x with phase := .releasing j (.ok true) },
            .concluded j (.ok true)) := by
        simp [step, hp]
      obtain ⟨ss, y, hsteps, hy⟩ := exists_steps_of_releasing (E := E)
        (x := { x with phase := .releasing j (.ok true) }) rfl
      exact ⟨_, y, .cons hconclude hsteps, hy⟩
    | releasing j answer => exact exists_steps_of_releasing hp
    | crashed payload =>
      have hlog : x.step (.proceed : Deed E) =
          some ({ x with phase := .between, tally := x.tally.count .crashed },
            .crashLogged payload) := by
        simp [step, hp]
      exact ⟨_, _, .cons hlog (.nil _), rfl⟩
  obtain ⟨ss, y, hsteps, hy⟩ := hbetween
  have hfates : ∀ j ∈ y.rest,
      Fate.Survivable ((fun _ => ⟨.ok true, none⟩ : J → Fate) j) :=
    fun _ _ => trivial
  obtain ⟨ss', z, hsteps', hz, -⟩ := exists_steps (E := E) hfates hy
  exact ⟨ss ++ ss', z, hsteps.trans hsteps', hz⟩

/-- Nothing follows on the end of a batch. -/
theorem Steps.eq_of_finished (h : Steps x ss y) (hf : x.finished = true) :
    ss = [] ∧ y = x := by
  cases h with
  | nil => exact ⟨rfl, rfl⟩
  | cons first =>
    unfold finished at hf
    split at hf
    · rename_i hp hr
      cases shift_of_step first with
      | call _ next => rw [hr] at next; cases next
      | effect job => simp [inJob, current?, hp] at job
      | conclude hp' | pass hp' | crash hp' | log hp' => rw [hp] at hp'; cases hp'
    · cases hf

/-! ## Whole batches -/

/-- The batch was carried out to its end, its jobs behaving like this: each of them left
its block, in the order of the batch, and nothing else was left; the texts in the log
are those of the crashes; and the tally counts all jobs, those that did not come to a
yes, and those that crashed. -/
structure CarriedOut (batch : List J) (course : List (J × Conduct E))
    (ss : List (Deed E × JobEvent J E)) (y : Execution J) : Prop where
  steps : Steps (start batch) ss y
  finished : y.finished = true
  jobs : course.map Prod.fst = batch
  survives : ∀ c ∈ course, c.2.fate.Survivable
  blocks : ss.map Prod.snd = course.flatMap fun c => c.2.block c.1
  log : (ss.map Prod.snd).filterMap JobEvent.logText? = course.filterMap fun c =>
    c.2.crashText?
  executed : y.tally.executed = batch.length
  failed : y.tally.failed = course.countP fun c => !c.2.fate.outcome
  crashed : y.tally.crashed = course.countP fun c => c.2.fate.payload?.isSome

theorem CarriedOut.of_steps {batch : List J} {course : List (J × Conduct E)}
    (h : Steps (start batch) ss y) (hf : y.finished = true)
    (hjobs : course.map Prod.fst = batch) (hs : ∀ c ∈ course, c.2.fate.Survivable)
    (hblocks : ss.map Prod.snd = course.flatMap fun c => c.2.block c.1) :
    CarriedOut batch course ss y := by
  have hlog : (ss.map Prod.snd).filterMap JobEvent.logText? =
      course.filterMap fun c => c.2.crashText? := by
    rw [hblocks, List.filterMap_flatMap, List.filterMap_eq_flatMap_toList]
    exact congrArg course.flatMap (funext fun c => c.2.filterMap_logText?_block c.1)
  have hended : (ss.map Prod.snd).flatMap JobEvent.endedJobs = course.map fun c =>
    (c.1, c.2.fate) := by
    rw [hblocks, List.flatMap_assoc, List.map_eq_flatMap]
    exact congrArg course.flatMap (funext fun c => c.2.flatMap_endedJobs_block c.1)
  have htally : y.tally = tallyOn (course.map fun c => (c.1, c.2.fate)) := by
    have hrecord := h.record
    rw [hended, record_of_finished hf] at hrecord
    exact hrecord
  refine ⟨h, hf, hjobs, hs, hblocks, hlog, ?_, ?_, ?_⟩
  · rw [htally, Tally.counts_executed.tallyOn, tallyOf_executed, List.length_map, ← hjobs,
      List.length_map]
  · rw [htally, Tally.counts_failed.tallyOn, tallyOf_failed, List.countP_map]
    rfl
  · rw [htally, Tally.counts_crashed.tallyOn, tallyOf_crashed, List.countP_map]
    rfl

/-- Whatever the jobs of a batch do, it is carried out in blocks, one for each job and
in the order of the batch. A run that has come to its end was carried out like this, any
other run can be carried on until it was, and each way in which the jobs may behave
occurs. Jobs that crash at both points have no part in it. -/
theorem carried_out_in_blocks (batch : List J) :
    (∀ (ss : List (Deed E × JobEvent J E)) (y : Execution J), Steps (start batch) ss y →
      ∃ course ss' z, Steps y ss' z ∧ CarriedOut batch course (ss ++ ss') z ∧
        (y.finished = true → ss' = [] ∧ z = y)) ∧
    ∀ course : List (J × Conduct E), course.map Prod.fst = batch →
      (∀ c ∈ course, c.2.fate.Survivable) → ∃ ss y, CarriedOut batch course ss y := by
  constructor
  · intro ss y h
    obtain ⟨ss', z, hsteps, hz⟩ := exists_steps_finished (E := E) y
    have hall := h.trans hsteps
    obtain ⟨closing, course, hc, hjobs, hs, hblocks⟩ := hall.course hz
    cases hc with
    | between =>
      exact ⟨course, ss', z, hsteps, .of_steps hall hz hjobs hs hblocks,
        hsteps.eq_of_finished⟩
  · intro course hjobs hs
    obtain ⟨ss, y, h, hf, hblocks⟩ :=
      exists_steps_course hs (x := start batch) rfl hjobs.symm
    exact ⟨ss, y, .of_steps h hf hjobs hs hblocks⟩

/-- A job that passes, one that fails, one that crashes in its call, and one that
crashes in its release. -/
def fourConducts : List (Nat × Conduct String) :=
  [(0, { calling := ["looks"], fate := ⟨.ok true, none⟩ }),
    (1, { fate := ⟨.ok false, none⟩ }),
    (2, { fate := ⟨.error (.made "bad encoding"), none⟩, releasing := ["closes"] }),
    (3, { calling := ["looks"], fate := ⟨.ok true, some .other⟩ })]

/-- None of them keeps the others from being carried out, and each is counted once. -/
theorem fourConducts_in_blocks : ∃ ss y, CarriedOut [0, 1, 2, 3] fourConducts ss y ∧
    (ss.map Prod.snd).filterMap JobEvent.logText? =
      ["bad encoding", "non-string panic payload"] ∧
    y.tally = ⟨4, 3, 2⟩ := by
  have hsurvive : ∀ c ∈ fourConducts, c.2.fate.Survivable := by
    simp [fourConducts, Fate.Survivable]
  obtain ⟨ss, y, h⟩ := (carried_out_in_blocks [0, 1, 2, 3]).2 fourConducts rfl hsurvive
  refine ⟨ss, y, h, h.log, ?_⟩
  calc y.tally
      = ⟨y.tally.executed, y.tally.failed, y.tally.crashed⟩ := rfl
    _ = ⟨4, 3, 2⟩ := by rw [h.executed, h.failed, h.crashed]; rfl

end Execution

end CheckRounds
