import CheckRounds.Proofs.Job.Shift
import CheckRounds.Proofs.Pool.Approach
/-!
How threads in the work loop come to its end, and how workers leave once the alarm was
given.

Every step of a thread in the loop brings it nearer to its next look for work, or is
such a look, except the steps that a job of its takes by its own code, and those that
take a lock (`Pool.loopStep_of_step`). A worker in the middle of a batch carries out the
batch first; with the flag set it takes no other. So under a fair schedule, and if the
code of the jobs terminates, each worker finishes (`Course.Fair.worker_finishes`).
-/

namespace CheckRounds

open Pool

variable {J E : Type} {n t u : Nat} {h : List (Moment J E)} {m : Move J E}
  {es : List (Event J E)} {p q : Pool J} {o : Upshot J E}

/-! ## The way to the end -/

/-- The steps that are left of a batch, the effects of its jobs and their calls aside. -/
def Execution.remaining (x : Execution J) : Nat :=
  4 * x.rest.length + match x.phase with
    | .between => 0
    | .crashed _ => 1
    | .releasing _ _ => 2
    | .calling _ => 3

theorem Execution.remaining_step {x y : Execution J} {d : Deed E} {e : JobEvent J E}
    (h : x.step d = some (y, e)) :
    y.remaining < x.remaining ∨ x.inJob = true ∧ y = x := by
  cases Execution.shift_of_step h with
  | call phase next =>
    left
    simp only [remaining, phase, next, List.length_cons]
    omega
  | conclude phase | pass phase | crash phase | log phase =>
    left
    simp only [remaining, phase]
    omega
  | effect job => exact .inr ⟨job, rfl⟩

/-- The steps that are left to a thread that will take no further batch. -/
def LoopStage.remaining : LoopStage J → Nat
  | .leaving _ => 1
  | .taking => 2
  | .entering => 3
  | .waking => 3
  | .rousing => 3
  | .asleep => 4
  | .reporting _ => 4
  | .executing x => 5 + x.remaining

namespace Thread

def remaining (th : Thread J) : Nat :=
  match th.duty with
  | .looping _ stage => stage.remaining
  | _ => 0

/-- The thread is a worker that is in a job, in its code or in a call that the job
makes. -/
def runsJob (th : Thread J) : Bool :=
  match th.duty with
  | .looping .worker (.executing x) => x.inJob
  | _ => false

/-- The thread is in a job, in its code or in a call that the job makes. -/
def inJob (th : Thread J) : Bool :=
  match th.duty with
  | .looping _ (.executing x) => x.inJob
  | _ => false

theorem remaining_of_duty {th th' : Thread J} (h : th'.duty = th.duty) :
    th'.remaining = th.remaining := by
  simp [remaining, h]

theorem MayCall.inJob {th : Thread J} (h : th.MayCall) {role : Role} {stage : LoopStage J}
    (hd : th.duty = .looping role stage) : th.inJob = true := by
  rcases h with hc | ⟨_, x, hx, hjob⟩
  · cases hd.symm.trans hc
  · simp [Thread.inJob, hx, hjob]

theorem runsJob_eq_inJob {th : Thread J} {stage : LoopStage J}
    (hd : th.duty = .looping .worker stage) :
    th.runsJob = th.inJob := by
  cases stage <;> simp [runsJob, inJob, hd]

end Thread

/-! ## One step in the loop -/

/-- What a step of a thread in the work loop can be. -/
inductive LoopStep (p : Pool J) (t : Nat) (role : Role) (q : Pool J) : Prop where
  | nearer (less : (q.thread t).remaining < (p.thread t).remaining)
      (waiting : q.ledger.pending = p.ledger.pending)
  | takes (looks : (p.thread t).duty = .looping role .taking)
      (stays : role = .worker → p.ledger.shuttingDown = false)
      (work : p.ledger.pending ≠ [])
      (waiting : q.ledger.pending = p.ledger.take.pending)
      (begins : (q.thread t).duty = .looping role (.executing (.start p.ledger.batch)))
  | sleeps (looks : (p.thread t).duty = .looping role .taking)
      (stays : role = .worker → p.ledger.shuttingDown = false)
      (noWork : p.ledger.pending = [])
      (undone : role ≠ .worker → p.ledger.todo ≠ 0)
      (falls : (q.thread t).duty = .looping role .asleep)
  | takesLedger (grip : p.TakesLedger t q)
  | inJob (runs : (p.thread t).inJob = true)
      (same : (q.thread t).duty = (p.thread t).duty)
      (waiting : q.ledger.pending = p.ledger.pending)

namespace Pool

theorem remaining_of_looping {role : Role} {stage : LoopStage J}
    (hd : (p.thread t).duty = .looping role stage) :
    (p.thread t).remaining = stage.remaining := by
  rw [Thread.remaining, hd]

end Pool

theorem DutyStep.loopStep {role : Role} {stage : LoopStage J}
    (h : DutyStep p t (.looping role stage) m q es) (hc : (p.thread t).call = none)
    (hd : (p.thread t).duty = .looping role stage) : LoopStep p t role q := by
  have nearer {stage' : LoopStage J} (r : Pool J) (hlt : stage'.remaining <
      stage.remaining)
      (hr : r.ledger.pending = p.ledger.pending) :
      LoopStep p t role (r.setDuty t (.looping role stage')) := by
    refine .nearer ?_ hr
    rwa [remaining_of_looping hd, remaining_of_looping (duty_setDuty _ _ _)]
  cases h with
  | lockLedger need free =>
    exact .takesLedger ⟨(need_of_looping hc hd).trans need, free, rfl⟩
  | declineJob inJob => exact .inJob (by simp [Thread.inJob, hd, inJob]) rfl rfl
  | take _ stays work => exact .takes hd stays work rfl (duty_setDuty _ _ _)
  | sleep _ stays noWork undone =>
    exact .sleeps hd stays noWork undone (duty_setDuty _ _ _)
  | enter | stir | wake | announce | quit | drain =>
    exact nearer _ (Nat.lt_succ_self _) rfl
  | work step =>
    rcases Execution.remaining_step step with hlt | ⟨hjob, rfl⟩
    · exact nearer _ (Nat.add_lt_add_left hlt 5) rfl
    · exact .inJob (by simp [Thread.inJob, hd, hjob])
        ((duty_setDuty _ _ _).trans hd.symm) rfl
  | finish =>
    refine nearer _ ?_ rfl
    simp only [LoopStage.remaining]
    omega
  | report =>
    refine nearer _ ?_ rfl
    -- With the report of the last batch it has still to rouse the others.
    split <;> simp [LoopStage.remaining]
  | leave =>
    refine .nearer ?_ rfl
    rw [remaining_of_looping hd, Thread.remaining, duty_setDuty]
    cases role <;> exact Nat.lt_succ_self _

theorem CallStep.pending {c : Call} (h : CallStep p t c m q es) :
    q.ledger.pending = p.ledger.pending := by
  cases h <;> rfl

namespace Pool

/-- Every step of a thread in the work loop is in the list. -/
theorem loopStep_of_step (ho : p.Orderly) {role : Role} {stage : LoopStage J}
    (hd : (p.thread t).duty = .looping role stage) (h : p.step t m = some (q, es)) :
    LoopStep p t role q := by
  cases hc : (p.thread t).call with
  | some call =>
    -- A thread in the loop makes calls only in a job.
    have hmay := ho.callers t call hc
    have hstep := callStep_of_step hc h
    obtain ⟨c', hq⟩ := hstep.thread hc hmay.not_asleep
    exact .inJob (hmay.inJob hd) (by rw [hq, Thread.duty_withCall]) hstep.pending
  | none =>
    cases soloStep_of_step hc h with
    | begins r liberty =>
      refine .inJob ((Thread.mayCall_of_atLiberty liberty).inJob hd) ?_ rfl
      rw [setCall, thread_setThread_self]
      rfl
    | goesOn _ hduty step =>
      cases hduty.symm.trans hd
      exact step.loopStep hc hd

/-- With the flag set, a step of a worker brings it nearer to its end, unless it only
takes the ledger or is a step of the job that the worker is in. -/
theorem pursues_of_flag (ho : p.Orderly) (hf : p.ledger.shuttingDown = true)
    {stage : LoopStage J} (hd : (p.thread t).duty = .looping .worker stage)
    (h : p.step t m = some (q, es)) :
    Pursues t (fun p => (p.thread t).remaining) Thread.runsJob p q := by
  cases loopStep_of_step ho hd h with
  | nearer less => exact .inl less
  | takes _ stays => cases (stays rfl).symm.trans hf
  | sleeps _ stays => cases (stays rfl).symm.trans hf
  | takesLedger grip => exact .inr ⟨by rw [grip.after]; exact Nat.le_refl _, .inl grip⟩
  | inJob runs same =>
    exact .inr ⟨Nat.le_of_eq (Thread.remaining_of_duty same),
      .inr ((Thread.runsJob_eq_inJob hd).trans runs)⟩

end Pool

/-! ## A worker finishes -/

theorem Thread.isAsleep_of_looping {th : Thread J} {stage : LoopStage J}
    (hd : th.duty = .looping role stage) (ha : stage ≠ .asleep) :
    th.isAsleep = false := by
  unfold Thread.isAsleep
  rw [hd]
  cases stage with
  | asleep => exact absurd rfl ha
  | _ => rfl

/-- No worker sleeps after the alarm, so others do not touch it. -/
theorem Pool.Alarmed.worker_stays (ha : p.Alarmed) (hs : Turns p t m q es) (hu : u ≠ t)
    {stage : LoopStage J} (hd : (p.thread u).duty = .looping .worker stage) :
    q.thread u = p.thread u := by
  obtain ⟨o, _, ht⟩ := hs
  have hawake : stage ≠ .asleep := by
    rintro rfl
    exact ha.awake u hd
  refine ht.stays hu (Thread.isAsleep_of_looping hd hawake) fun hnew => ?_
  rw [hnew] at hd
  cases hd

/-- A worker that is awake, and not in a job, needs nothing but the ledger. -/
theorem LoopStage.need_of_awake {stage : LoopStage J} (ha : stage ≠ .asleep)
    (hx : ∀ x, stage = .executing x → x.inJob = false) :
    stage.need = .nothing ∨ stage.need = .ledger ∨ stage.need = .freeLedger := by
  cases stage with
  | asleep => exact absurd rfl ha
  | executing x => simp [need, hx x rfl]
  | _ => simp [need]

/-- A thread that is awake in the loop, and not in a job, makes no call, and needs at
most the ledger. -/
theorem Pool.Orderly.need_of_awake (ho : p.Orderly) {role : Role} {stage : LoopStage J}
    (hd : (p.thread u).duty = .looping role stage) (ha : stage ≠ .asleep)
    (hjob : (p.thread u).inJob = false) :
    (p.thread u).need = .nothing ∨ (p.thread u).need = .ledger ∨
    (p.thread u).need = .freeLedger := by
  have hcall : (p.thread u).call = none := by
    by_contra hsome
    obtain ⟨call, hcall⟩ := Option.ne_none_iff_exists'.1 hsome
    cases ((ho.callers u call hcall).inJob hd).symm.trans hjob
  rw [Thread.need_of_duty hcall, hd]
  refine LoopStage.need_of_awake ha ?_
  rintro x rfl
  simpa [Thread.inJob, hd] using hjob

namespace Course

variable {i j : Nat} {c : Course J E}

/-- The code of a job that runs on worker `u` takes a step. -/
def JobMoves (c : Course J E) (u i : Nat) : Prop :=
  c.Moves u i ∧ ((c.state i).thread u).runsJob = true ∧ ((c.state i).thread u).call = none

/-- The code of each job that runs on worker `u` always takes its next step, and takes
finitely many. How long the calls take that it makes is not said. -/
structure JobsEnd (c : Course J E) (u : Nat) : Prop where
  goOn : ∀ i, ((c.state i).thread u).runsJob = true → ((c.state i).thread u).call = none →
    ∃ j, i ≤ j ∧ c.JobMoves u j
  finite : ∀ i, (∀ j, i ≤ j → ((c.state j).thread u).runsJob = true) →
    ∃ j, i ≤ j ∧ ∀ k, j ≤ k → ¬ c.JobMoves u k

/-- No job that runs on worker `u` stops the workers. -/
def NeverStops (c : Course J E) (u : Nat) : Prop :=
  ∀ i stage, ((c.state i).thread u).runsJob = true →
    ((c.state i).thread u).call ≠ some (.stopping stage)

theorem alarmed_of_le (hij : i ≤ j) (ha : (c.state i).Alarmed) : (c.state j).Alarmed :=
  stable (P := Pool.Alarmed) (fun hp hstep => hp.turns (turns_of_step hstep)) hij ha

theorem isWorker_of_le (hij : i ≤ j) (hw : ((c.state i).thread u).IsWorker) :
    ((c.state j).thread u).IsWorker :=
  stable (P := fun p => (p.thread u).IsWorker)
    (fun hp hstep => (turns_of_step hstep).isWorker hp) hij hw

/-- A worker does not stay in a job for ever. -/
theorem Fair.leaves_job (hf : c.Fair) (hr : Reached n h (c.state 0)) (hjobs : c.JobsEnd u)
    (hstop : c.NeverStops u) (i : Nat) :
    ∃ j, i ≤ j ∧ ((c.state j).thread u).runsJob = false := by
  refine leaves_code (i := 0) (fun j _ => hjobs.goOn j) (fun j _ => hjobs.finite j) ?_
    (Nat.zero_le i)
  intro j _ hruns
  refine hf.call_ends hr u j fun k call w hjk hcall hw => ?_
  cases call with
  | stopping stage => exact absurd hcall (hstop k stage (hruns k hjk))
  | _ => cases hw

/-- After the alarm a worker that has not finished comes nearer to its end. -/
theorem Fair.worker_pursuit (hf : c.Fair) (hr : Reached n h (c.state 0))
    (hjobs : c.JobsEnd u) (hstop : c.NeverStops u) (i : Nat) :
    c.Pursuit u i (fun p => p.Alarmed ∧
      ∃ stage, (p.thread u).duty = .looping .worker stage)
      (fun p => (p.thread u).remaining) Thread.runsJob where
  own := by
    rintro j m es _ ⟨ha, stage, hd⟩ _ hstep
    exact pursues_of_flag (c.orderly hr j) ha.flag hd hstep
  others := by
    rintro j v m es _ hv ⟨ha, stage, hd⟩ _ _ hstep
    have hsame := ha.worker_stays (turns_of_step hstep) (Ne.symm hv) hd
    exact ⟨hsame, Nat.le_of_eq (by rw [hsame])⟩
  need := by
    rintro j _ ⟨ha, stage, hd⟩ hruns
    refine (c.orderly hr j).need_of_awake hd ?_
      ((Thread.runsJob_eq_inJob hd).symm.trans hruns)
    rintro rfl
    exact ha.awake u hd
  idle := fun _ j _ => hf.leaves_job hr hjobs hstop j

/-- After the alarm each worker finishes. -/
theorem Fair.worker_finishes (hf : c.Fair) (hr : Reached n h (c.state 0))
    (hjobs : c.JobsEnd u) (hstop : c.NeverStops u) (ha : (c.state i).Alarmed)
    (hw : ((c.state i).thread u).IsWorker) :
    ∃ j, i ≤ j ∧ ((c.state j).thread u).duty = .finished := by
  have hworker := hw
  rcases hw with hd | hd
  · obtain ⟨j, hij, _, hleft, _⟩ :=
      hf.pursues hr (hf.worker_pursuit hr hjobs hstop i) ⟨ha, hd⟩
    refine ⟨j + 1, by omega, (isWorker_of_le (by omega) hworker).resolve_left
      fun hstill => hleft ?_⟩
    exact ⟨alarmed_of_le (by omega) ha, hstill⟩
  · exact ⟨i, Nat.le_refl i, hd⟩

end Course

end CheckRounds
