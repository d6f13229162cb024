import CheckRounds.Proofs.Pool.Batches
import CheckRounds.Proofs.Pool.Handles
/-!
Which thread takes which batch, while nobody interferes.

A history shows each batch together with the thread that took it. As long as no call is
made that sets the batch size or starts workers (`Undisturbed`), the cap stays as it is
and nobody enters the work loop but the opener of a round. The sizes of the batches then
depend on nothing but who sleeps.
-/

namespace CheckRounds

open Pool

variable {J E : Type} {n t u : Nat} {h k : List (Moment J E)} {m : Move J E}
  {es : List (Event J E)} {p q : Pool J} {o : Upshot J E} {c : Call}

/-! ## Batches with their takers -/

/-- The batches that were taken, in their order, each with the thread that took it. -/
def grabs (h : List (Moment J E)) : List (Nat × List J) :=
  h.flatMap fun m => (m.events.flatMap Event.batches).map (m.thread, ·)

def grabSizes (h : List (Moment J E)) : List Nat := (grabs h).map fun g => g.2.length

@[simp] theorem grabs_nil : grabs ([] : List (Moment J E)) = [] := rfl

@[simp] theorem grabs_append (h k : List (Moment J E)) :
    grabs (h ++ k) = grabs h ++ grabs k :=
  List.flatMap_append

@[simp] theorem grabs_singleton :
    grabs [⟨t, m, es⟩] = (es.flatMap Event.batches).map (t, ·) := by
  simp [grabs]

@[simp] theorem grabSizes_append (h k : List (Moment J E)) :
    grabSizes (h ++ k) = grabSizes h ++ grabSizes k := by
  simp [grabSizes]

theorem flatten_batches (es : List (Event J E)) :
    (es.flatMap Event.batches).flatten = es.flatMap Event.takenJobs := by
  have hevent : ∀ e : Event J E, e.batches.flatten = e.takenJobs := by
    intro e
    cases e with
    | took role batch => exact List.append_nil batch
    | _ => rfl
  rw [List.flatten_eq_flatMap, List.flatMap_assoc]
  exact List.flatMap_congr fun e _ =>
    (List.flatten_eq_flatMap (L := e.batches)) ▸ hevent e

/-- What was taken is the batches, one after another. -/
theorem jobsTaken_eq (h : List (Moment J E)) :
    jobsTaken h = ((grabs h).map Prod.snd).flatten := by
  induction h with
  | nil => rfl
  | cons m h ih =>
    obtain ⟨t, m, es⟩ := m
    have hrest : collect Event.takenJobs h = ((grabs h).map Prod.snd).flatten := ih
    rw [← List.singleton_append, jobsTaken, collect_append, hrest, grabs_append,
      List.map_append,
      List.flatten_append, collect_singleton, grabs_singleton, List.map_map]
    simp [Function.comp_def, flatten_batches]

/-- What a step does with the jobs that wait: nothing, or it adds some, or takes a
batch. -/
theorem Shift.pending_cases {l : Ledger J} {s : Option Nat} {th : Thread J}
    (h : Shift t l s th m o) :
    (o.ledger.pending = l.pending ∧ o.events.flatMap Event.addedJobs = [] ∧
      o.events.flatMap Event.batches = []) ∨
    (∃ jobs, th.duty = .adding jobs ∧
      o = ⟨l.push jobs, s, th.withDuty (.rousing (jobs.length != 1)),
      [.added jobs], .nobody⟩) ∨
    ∃ role, th.duty = .looping role .taking ∧ l.pending ≠ [] ∧
      o = ⟨l.take, s, th.withDuty (.looping role (.executing (.start l.batch))),
        [.took role l.batch], .nobody⟩ := by
  cases h with
  | still _ hc | clerical _ _ _ hc =>
    exact .inl ⟨rfl, addedJobs_of_clerical hc, batches_of_clerical hc⟩
  | push hd => exact .inr (.inl ⟨_, hd, rfl⟩)
  | take hd _ work => exact .inr (.inr ⟨_, hd, work, rfl⟩)
  | _ => exact .inl ⟨rfl, rfl, rfl⟩

/-- Who adds jobs has a round open. -/
theorem Thread.Sound.of_adding {th : Thread J} {jobs : List J} (h : th.Sound)
    (hd : th.duty = .adding jobs) :
    jobs ≠ [] ∧ th.Undecided := by
  simpa only [Thread.Sound, hd] using h

/-! ## Counts to which few threads contribute -/

/-- A count to which only one thread contributes is what this one does. -/
theorem total_eq_of_sole {f : Thread J → Nat} (hf : f {} = 0)
    (h : ∀ u, u ≠ t → f (p.thread u) = 0) :
    total f p.threads = f (p.thread t) := by
  have hput := total_put {} f hf [] t (p.thread t)
  have hget : ∀ u,
      f (p.threads.getD u {}) = f ((put {} [] t (p.thread t)).getD u {}) := by
    intro u
    rw [getD_put]
    by_cases hu : u = t
    · rw [if_pos hu, hu]
      rfl
    · rw [if_neg hu]
      exact (h u hu).trans hf.symm
  have hsame : total f p.threads = total f (put {} [] t (p.thread t)) :=
    Nat.le_antisymm (total_mono hf fun u => Nat.le_of_eq (hget u)) 
      (total_mono hf fun u => Nat.le_of_eq (hget u).symm)
  rw [hsame]
  simpa [total, hf] using hput

/-- The thread is in the work loop, or about to enter it. -/
def Thread.loops (th : Thread J) : Bool :=
  match th.duty with
  | .looping _ _ => true
  | _ => false

theorem Thread.loops_of_duty {th : Thread J} {d : Duty J} (hd : th.duty = d) :
    th.loops = ({ duty := d } : Thread J).loops := by
  rw [← hd]
  rfl

theorem Thread.loops_roused (th : Thread J) : th.roused.loops = th.loops :=
  apply_roused (fun _ _ hd => (loops_of_duty hd).symm) th

/-! ## Nobody sets the cap or starts workers -/

/-- The call sets the batch size or starts workers. -/
def Call.alters : Call → Bool
  | .configuring _ => true
  | .starting _ _ => true
  | _ => false

def Request.alters : Request → Bool
  | .configure _ => true
  | .start _ => true
  | _ => false

/-- No call is under way that sets the batch size or starts workers. -/
def Pool.Settled (p : Pool J) : Prop :=
  ∀ u c, (p.thread u).call = some c → c.alters = false

/-- With this moment no such call is made. -/
def Moment.Quiet (m : Moment J E) : Prop :=
  ∀ r, m.move.request? = some r → r.alters = false

instance (m : Moment J E) : Decidable m.Quiet :=
  decidable_of_iff (m.move.request?.all (!·.alters) = true)
    (by simp [Moment.Quiet, Option.all_eq_true])

theorem Pool.settled_of_all (h : ∀ th ∈ p.threads, th.call = none) : p.Settled := by
  intro u c hc
  rcases thread_mem_or_default p u with hmem | hnew
  · cases (h _ hmem).symm.trans hc
  · rw [hnew] at hc
    cases hc

/-- From state `p` on, and along this history, nobody sets the batch size or starts
workers. -/
structure Undisturbed (p : Pool J) (k : List (Moment J E)) : Prop where
  settled : p.Settled
  quiet : ∀ m ∈ k, m.Quiet

theorem CallStep.alters {c' : Call} (h : CallStep p t c m q es)
    (hc : (p.thread t).call = some c) (hq : (q.thread t).call = some c') :
    c'.alters = c.alters := by
  have next {x : Pool J} {d : Option Call} (hx : q = x.setCall t d) : d = some c' := by
    rw [hx, call_setCall] at hq
    exact hq
  cases h with
  | lockLedger | lockRoster =>
    obtain rfl := Option.some.inj (hc.symm.trans hq)
    rfl
  | configure | readBatchSize | countWorkers | measure | endStart | collectNone
  | endStop => cases next rfl
  | _ =>
    obtain rfl := Option.some.inj (next rfl)
    rfl

theorem Pool.Settled.step (hp : p.Settled) (hm : Moment.Quiet (E := E) ⟨t, m, es⟩)
    (hstep : p.step t m = some (q, es)) : q.Settled := by
  intro u c hq
  by_cases hu : u = t
  · subst hu
    cases hc : (p.thread u).call with
    | some d => exact ((callStep_of_step hc hstep).alters hc hq).trans (hp u d hc)
    | none =>
      cases soloStep_of_step hc hstep with
      | begins r =>
        rw [call_setCall, Option.some.injEq] at hq
        have hr := hm r rfl
        subst hq
        cases r <;> first | rfl | cases hr
      | goesOn _ _ step => cases (step.frame hc).call.symm.trans hq
  · obtain ⟨o, _, ht⟩ := turns_of_step hstep
    exact hp u c ((ht.same Thread.call_roused rfl hu).symm.trans hq)

/-- What a step does not do while no such call is under way. -/
theorem Shift.of_settled {l : Ledger J} {s : Option Nat} {th : Thread J}
    (h : Shift t l s th m o) (hc : ∀ c, th.call = some c → c.alters = false) :
    o.ledger.batchSize = l.batchSize ∧ ∀ v, o.wake ≠ .newborn v := by
  cases h with
  | configure call => cases hc _ call
  | spawn call => cases hc _ call
  | _ => exact ⟨rfl, nofun⟩

/-- A thread that does not move is the same, or was roused: it does not start as a
worker. -/
theorem Turn.same_of_settled {α : Type} {f : Thread J → α} (ht : Turn p t q es o)
    (hs : Shift t p.ledger p.slot (p.thread t) m o) (hp : p.Settled)
    (hr : ∀ th, f th.roused = f th) (hu : u ≠ t) : f (q.thread u) = f (p.thread u) := by
  rw [ht.others u hu]
  rcases o.wake.touch_cases ((hs.of_settled (hp t)).2 u) (p.thread u) with hsame | hroused
  · rw [hsame]
  · rw [hroused, hr]

/-- What is kept by every step of a run with such moments holds at its end. -/
theorem Run.induct_all {P : Moment J E → Prop} {C : List (Moment J E) → Pool J → Prop}
    (hk : Run p k q) (hP : ∀ m ∈ k, P m) (start : C [] p)
    (next : ∀ {k x y t m es}, Run p k x → C k x → P ⟨t, m, es⟩ →
      x.step t m = some (y, es) → C (k ++ [⟨t, m, es⟩]) y) :
    C k q := by
  induction hk with
  | nil => exact start
  | snoc before last ih =>
    exact next before (ih fun m hm => hP m (by simp [hm])) (hP _ (by simp)) last

theorem Pool.Settled.batchSize_eq (hp : p.Settled) (hstep : p.step t m = some (q, es)) :
    q.ledger.batchSize = p.ledger.batchSize := by
  obtain ⟨o, hs, ht⟩ := turns_of_step hstep
  rw [ht.ledger, (hs.of_settled (hp t)).1]

/-- Nobody enters the work loop but a thread with a round, which asks for it. -/
theorem Shift.stays_out {l : Ledger J} {s : Option Nat} {th : Thread J}
    (h : Shift t l s th m o) (hl : th.loops = false)
    (hn : th.round = none ∨ m.calls = []) : o.thread.loops = false := by
  cases h with
  | still | clerical | configure | flag | spawn | retell => exact hl
  | alarm => exact (Thread.loops_roused th).trans hl
  | engage _ hr _ hm =>
    rcases hn with hn | hn
    · cases hn.symm.trans hr
    · rcases hm with ⟨rfl, _⟩ | ⟨u, rfl, _⟩ <;> cases hn
  | enter hd | quit hd | take hd | drain hd | sleep hd | stir hd | wake hd | work hd
  | finish hd | report hd | announce hd | leave hd =>
    cases (Thread.loops_of_duty hd).symm.trans hl
  | _ => rfl

end CheckRounds
