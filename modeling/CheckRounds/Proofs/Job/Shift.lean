import CheckRounds.Job.Execution
/-!
What one step of a batch can do, in one list, and what follows from it for the jobs of
the batch: they are called and end in their order, the tally fails exactly if the
effective outcome of a job that ended was not yes, and it counts the verdicts on the
jobs that ended.
-/

namespace CheckRounds

variable {J E : Type}

/-- What a job comes to: its answer, unless it crashed in its call or in its release. -/
def Fate.outcome (f : Fate) : Bool :=
  match f.answer, f.crash with
  | .ok b, none => b
  | _, _ => false

@[simp] theorem Verdict.ok_ofAnswer (b : Bool) : (Verdict.ofAnswer b).ok = b := by
  cases b <;> rfl

theorem Fate.ok_verdict (f : Fate) : f.verdict.ok = f.outcome := by
  obtain ⟨answer, crash⟩ := f
  cases answer with
  | error payload => rfl
  | ok b =>
    cases crash with
    | none => exact Verdict.ok_ofAnswer b
    | some payload => rfl

def JobEvent.calledJobs : JobEvent J E → List J
  | .called j => [j]
  | _ => []

def JobEvent.endedJobs : JobEvent J E → List (J × Fate)
  | .released j fate => [(j, fate)]
  | _ => []

namespace Execution

inductive Shift (x : Execution J) : Deed E → Execution J → JobEvent J E → Prop where
  | call {j rest} (phase : x.phase = .between) (next : x.rest = j :: rest) :
      Shift x .proceed { x with phase := .calling j, rest } (.called j)
  | conclude {j answer} (phase : x.phase = .calling j) :
      Shift x (.conclude answer) { x with phase := .releasing j answer }
        (.concluded j answer)
  | pass {j b} (phase : x.phase = .releasing j (.ok b)) :
      Shift x (.discard none)
        { x with phase := .between, tally := x.tally.count (.ofAnswer b) }
        (.released j ⟨.ok b, none⟩)
  | crash {j answer crash payload} (phase : x.phase = .releasing j answer)
      (verdict : Fate.verdict ⟨answer, crash⟩ = .crashed) :
      Shift x (.discard crash) { x with phase := .crashed payload }
        (.released j ⟨answer, crash⟩)
  | log {payload} (phase : x.phase = .crashed payload) :
      Shift x .proceed { x with phase := .between, tally := x.tally.count .crashed }
        (.crashLogged payload)
  | effect {e} (job : x.inJob = true) : Shift x (.effect e) x (.effect e)

variable {x y : Execution J} {d : Deed E} {e : JobEvent J E}

theorem shift_of_step (h : x.step d = some (y, e)) : Shift x d y e := by
  unfold step at h
  split at h
  case h_1 hp =>
    split at h
    · cases h
    · rename_i hr
      cases h
      exact .call hp hr
  case h_2 hp =>
    cases h
    exact .conclude hp
  case h_3 j answer crash hp =>
    cases answer with
    | ok b =>
      cases crash with
      | none =>
        cases h
        exact .pass hp
      | some payload =>
        cases h
        exact .crash hp rfl
    | error payload =>
      cases crash with
      | none =>
        cases h
        exact .crash hp rfl
      | some payload' => cases h
  case h_4 hp =>
    cases h
    exact .log hp
  case h_5 hp =>
    cases h
    exact .effect (by simp [inJob, current?, hp])
  case h_6 hp =>
    cases h
    exact .effect (by simp [inJob, current?, hp])
  case h_7 => cases h

/-- The jobs of the batch that have not ended, the one that runs first. -/
def unended (x : Execution J) : List J := x.current?.toList ++ x.rest

/-- No job of the batch that ended failed, the one whose crash is yet to be logged
included. -/
def clean (x : Execution J) : Bool :=
  match x.phase with
  | .crashed _ => false
  | _ => x.tally.ok

/-- The tally of the jobs of the batch that ended, the one whose crash is yet to be
logged included. -/
def record (x : Execution J) : Tally :=
  match x.phase with
  | .crashed _ => x.tally.count .crashed
  | _ => x.tally

theorem length_rest_le (x : Execution J) : x.rest.length ≤ x.size := by
  simp only [size, unfinished]
  omega

theorem length_unended_le (x : Execution J) : x.unended.length ≤ x.size := by
  cases hp : x.phase <;>
    simp only [unended, size, unfinished, current?, hp, Option.toList_none,
    Option.toList_some, List.length_append, List.length_nil, List.length_singleton] <;>
      omega

theorem unended_of_finished (h : x.finished = true) : x.unended = [] := by
  unfold finished at h
  split at h
  · rename_i hp hr
    simp [unended, current?, hp, hr]
  · cases h

theorem clean_of_finished (h : x.finished = true) : x.clean = x.tally.ok := by
  unfold finished at h
  split at h
  · rename_i hp _
    simp [clean, hp]
  · cases h

theorem record_of_finished (h : x.finished = true) : x.record = x.tally := by
  unfold finished at h
  split at h
  · rename_i hp _
    simp [record, hp]
  · cases h

theorem rest_step (h : x.step d = some (y, e)) : x.rest = e.calledJobs ++ y.rest := by
  cases shift_of_step h with
  | call _ next => exact next
  | _ => rfl

theorem unended_step (h : x.step d = some (y, e)) :
    x.unended = e.endedJobs.map Prod.fst ++ y.unended := by
  cases shift_of_step h with
  | call hp next => simp [unended, current?, hp, next, JobEvent.endedJobs]
  | conclude hp => simp [unended, current?, hp, JobEvent.endedJobs]
  | pass hp => simp [unended, current?, hp, JobEvent.endedJobs]
  | crash hp => simp [unended, current?, hp, JobEvent.endedJobs]
  | log hp => simp [unended, current?, hp, JobEvent.endedJobs]
  | effect => rfl

theorem record_step (h : x.step d = some (y, e)) :
    y.record = (e.endedJobs.map fun j => j.2.verdict).foldl Tally.count x.record := by
  cases shift_of_step h with
  | call hp | conclude hp | log hp => simp [record, hp, JobEvent.endedJobs]
  | pass hp => simp [record, hp, JobEvent.endedJobs, Fate.verdict]
  | crash hp hv => simp [record, hp, JobEvent.endedJobs, hv]
  | effect => rfl

/-- The batch stays clean as long as the jobs that end have a good outcome. -/
theorem clean_step (h : x.step d = some (y, e)) :
    y.clean = (x.clean && e.endedJobs.all fun j => j.2.outcome) := by
  cases shift_of_step h with
  | call hp => simp [clean, hp, JobEvent.endedJobs]
  | conclude hp => simp [clean, hp, JobEvent.endedJobs]
  | @pass j b hp =>
    have hb : Fate.outcome ⟨.ok b, none⟩ = b := rfl
    simp [clean, hp, JobEvent.endedJobs, hb]
  | @crash j answer crash payload hp hv =>
    have ho : Fate.outcome ⟨answer, crash⟩ = false := by rw [← Fate.ok_verdict, hv]; rfl
    simp [clean, JobEvent.endedJobs, ho]
  | log hp => simp [clean, hp, JobEvent.endedJobs, Verdict.ok]
  | effect => simp [JobEvent.endedJobs]

end Execution

end CheckRounds
