import CheckRounds.Proofs.Moderation
import CheckRounds.Proofs.Pool.Concluding
import CheckRounds.Proofs.Pool.SingleAdd
import CheckRounds.Proofs.Snapshot
import Mathlib.Data.Nat.Find
/-!
A thread that is alone in the work loop drains a round in order, in few batches, and
does not sleep.

The opener of a round that waits without workers takes what waits in batches of half of
what is left, or full ones, and calls the jobs in the order in which they were added. It
never falls asleep, since nothing can be under way elsewhere. A worker that is alone
does the same with jobs that are added in one go: the sizes of the batches follow from
the number of the jobs. Under a fair schedule both come to the end of the jobs.
-/

namespace CheckRounds

open Pool

variable {J E : Type} {n t u w b : Nat} {h k : List (Moment J E)} {m : Move J E}
  {es : List (Event J E)} {p q r : Pool J} {o : Upshot J E} {jobs : List J}
  {c : Course J E}

/-! ## What a thread leaves that has carried out all jobs alone -/

/-- Thread `t` has carried out these jobs alone: it took them in the batches of a thread
that is alone, of which each is at most as large as the one before, and the last one
holds a single job; and it called them in their order. -/
structure DoneInTurn (t b : Nat) (jobs : List J) (k : List (Moment J E)) : Prop where
  takers : ∀ g ∈ grabs k, g.1 = t
  batches : (grabs k).map Prod.snd = Ledger.soleBatches b jobs
  order : jobsCalled k = jobs
  tapers : Ledger.Tapers b jobs.length (grabSizes k)

theorem InTurn.done (hk : InTurn t b jobs k q) (hb : 1 ≤ b) (hj : jobs ≠ [])
    (hnone : q.ledger.pending = []) (hidle : (q.thread t).inFlight = 0) :
    DoneInTurn t b jobs k := by
  have hbatches : (grabs k).map Prod.snd = Ledger.soleBatches b jobs := by
    have hall := hk.batches
    rwa [hnone, Ledger.soleBatches_nil, List.append_nil] at hall
  refine ⟨hk.takers, hbatches, ?_, ?_⟩
  · have horder := hk.order
    rwa [hnone, Thread.uncalled_of_inFlight hidle, List.append_nil,
      List.append_nil] at horder
  · have hsizes : grabSizes k = ((grabs k).map Prod.snd).map List.length :=
      (List.map_map).symm
    rw [hsizes, hbatches, Ledger.map_length_soleBatches]
    exact Ledger.tapers_soleShares hb (List.length_pos_iff.2 hj)

/-- Nobody else has anything under way. -/
theorem Pool.Sole.todo_eq (hp : p.Sole t) (hsound : p.Sound) :
    p.ledger.todo = p.ledger.pending.length + (p.thread t).inFlight := by
  rw [hsound.todo, total_eq_of_sole rfl fun u hu => (Thread.of_not_loops (hp u hu)).2.1]

/-! ## The opener of a round -/

/-- The thread waits for its round, is awake, and nobody else is in the work loop. -/
structure Pool.WaitsAlone (t : Nat) (p : Pool J) : Prop where
  waits : (p.thread t).Concludes .waiting
  awake : (p.thread t).sleeps = false
  sole : p.Sole t

namespace Pool.WaitsAlone

theorem unstaffed (hp : p.WaitsAlone t) : p.Unstaffed := by
  intro u stage hd
  obtain rfl := hp.sole.eq_of_looping hd
  cases hp.waits.role hd

theorem eq_of_hasSlot (hp : p.WaitsAlone t) (hsound : p.Sound)
    (hu : (p.thread u).HasSlot) : u = t :=
  hsound.eq_of_hasSlot ((hsound.slot t).1 (hp.waits.hasSlot (hsound.threads t))) hu

/-- Who begins to wait without workers is the only one in the work loop. -/
theorem of_unstaffed (hp : p.Unstaffed) (hsound : p.Sound)
    (hd : (p.thread t).duty = .looping (.owner .waiting) .entering) : p.WaitsAlone t where
  waits := .of_looping hd
  awake := Thread.sleeps_of_duty hd
  sole := hp.sole hsound ((hsound.threads t).undecided hd).hasSlot

/-- It finds work, or finds that the round is drained: what is under way it has itself. -/
theorem step (hp : p.WaitsAlone t) (hsound : p.Sound) (hset : p.Settled)
    (hstep : p.step u m = some (q, es)) (hv : u = t → ∀ v, .returned (.verdict v) ∉ es) :
    q.WaitsAlone t := by
  have hsole : q.Sole t := by
    refine hp.sole.step hset hstep fun hu => .inl ?_
    by_contra hround
    exact hu (hp.eq_of_hasSlot hsound (.inl hround))
  have hturns := turns_of_step hstep
  have hwaits : (q.thread t).Concludes .waiting :=
    (hturns.concludes hp.waits).resolve_right fun ⟨hu, ⟨v, he⟩, _⟩ => hv hu v he
  refine ⟨hwaits, ?_, hsole⟩
  obtain ⟨o, hs, ht⟩ := hturns
  by_cases hu : t = u
  · subst hu
    rw [ht.self, Bool.eq_false_iff]
    intro hsleeps
    rcases hs.of_sleeps hsleeps with hslept | ⟨role, hd, hnone, hundone⟩
    · cases hslept.symm.trans hp.awake
    · obtain rfl := hp.waits.role hd
      have hslot := hp.waits.hasSlot (hsound.threads t)
      have hidle : (p.thread t).inFlight = 0 := by simp [Thread.inFlight, hd]
      exact hundone (by simp) (hp.unstaffed.todo_eq_zero hsound hslot hidle hnone)
  · exact (ht.same Thread.sleeps_roused rfl hu).trans hp.awake

end Pool.WaitsAlone

theorem Reached.waits_in_turn (hr : Reached n h p) (hp : p.WaitsAlone t)
    (hnone : (p.thread t).uncalled = []) (hk : Run p k q) (hu : Undisturbed p k)
    (hv : ∀ v, (t, .returned (.verdict v)) ∉ events k) :
    q.WaitsAlone t ∧ q.Settled ∧ q.ledger.batchSize = p.ledger.batchSize ∧
      InTurn t p.ledger.batchSize p.ledger.pending k q := by
  have hmoments : ∀ m ∈ k, m.Quiet ∧
      (m.thread = t → ∀ v, .returned (.verdict v) ∉ m.events) := by
    refine fun m hm => ⟨hu.quiet m hm, ?_⟩
    rintro rfl v he
    exact hv v (List.mem_flatMap.2 ⟨m, hm, List.mem_map_of_mem he⟩)
  refine hk.induct_all (C := fun k q => q.WaitsAlone t ∧ q.Settled ∧
    q.ledger.batchSize = p.ledger.batchSize ∧
    InTurn t p.ledger.batchSize p.ledger.pending k q)
    hmoments ⟨hp, hu.settled, rfl, .start _ hnone⟩ ?_
  rintro k x y u m es hkx ⟨hx, hset, hsize, hturn⟩ ⟨hquiet, hsilent⟩ hstep
  have hrx : Reached n (h ++ k) x := Run.trans hr hkx
  have hclosed := hrx.sound.none_added hx.waits hstep
  have hnext := hturn.step hx.sole hrx.counted hrx.sound hsize hstep (.inr hclosed)
  rw [hclosed, List.append_nil] at hnext
  exact ⟨hx.step hrx.sound hset hstep hsilent, hset.step hquiet hstep,
    (hset.batchSize_eq hstep).trans hsize, hnext⟩

/-- When the wait returns all is done. -/
theorem Reached.done_of_returned (hr : Reached n h p) (hp : p.WaitsAlone t)
    (hnone : (p.thread t).uncalled = []) (hwork : p.ledger.pending ≠ [])
    (hk : Run p (k ++ [⟨t, m, es⟩]) q) (hu : Undisturbed p k)
    (hv : ∀ v, (t, .returned (.verdict v)) ∉ events k) {v : Bool}
    (he : .returned (.verdict v) ∈ es) :
    DoneInTurn t p.ledger.batchSize p.ledger.pending (k ++ [⟨t, m, es⟩]) := by
  obtain ⟨x, hkx, hstep⟩ := Run.of_concat hk
  have hrx : Reached n (h ++ k) x := Run.trans hr hkx
  obtain ⟨hx, hset, hsize, hturn⟩ := hr.waits_in_turn hp hnone hkx hu hv
  have hclosed := hrx.sound.none_added hx.waits hstep
  have hlast := hturn.step hx.sole hrx.counted hrx.sound hsize hstep (.inr hclosed)
  rw [hclosed, List.append_nil] at hlast
  obtain ⟨_, _, hblank⟩ := (turns_of_step hstep).blank_of_return hrx.sound (.inl ⟨v, he⟩)
  exact hlast.done hr.one_le_batchSize hwork hblank.pending (hblank.inFlight t)

/-! ## The wait returns -/

namespace Course

/-- A call that the thread makes in a job returns: the workers that it could wait for
have left. -/
theorem Fair.calls_return (hf : c.Fair) (hr : Reached n h (c.state 0))
    (hall : ∀ i, (c.state i).Unstaffed) (t i : Nat) :
    ∃ j, i ≤ j ∧ ((c.state j).thread t).call = none := by
  refine hf.call_ends hr t i fun k call w _ hcall hw => ?_
  have hfits := (c.orderly hr k).calls t call hcall
  unfold Call.waitsFor at hw
  split at hw
  · rcases hfits.2 w hw with ⟨stage, hd⟩ | hd
    · exact absurd hd (hall k w stage)
    · exact ⟨k, Nat.le_refl k, hd⟩
  · cases hw

/-- The opener does not wait for ever. -/
theorem Fair.wait_returns (hf : c.Fair) (hr : Reached n h (c.state 0))
    (hp : (c.state 0).WaitsAlone t) (hnone : ((c.state 0).thread t).uncalled = [])
    (hu : ∀ i, (∀ v, (t, .returned (.verdict v)) ∉ events (c.history i)) →
      Undisturbed (c.state 0) (c.history i))
    (hcode : c.CodeEnds t) :
    ∃ i v, (t, .returned (.verdict v)) ∈ events (c.history i) := by
  by_contra hnever
  have hsilent (i v) : (t, .returned (.verdict v)) ∉ events (c.history i) := fun he =>
    hnever ⟨i, v, he⟩
  have hall (i) : (c.state i).WaitsAlone t :=
    (hr.waits_in_turn hp hnone (c.run_history i) (hu i (hsilent i)) (hsilent i)).1
  have hunstaffed (i) : (c.state i).Unstaffed := (hall i).unstaffed
  have hends : ∃ i, 0 ≤ i ∧ ¬ ((c.state i).thread t).Concludes .waiting :=
    hf.concludes hr hcode (fun i _ => hunstaffed i) fun i _ =>
      hf.calls_return hr hunstaffed t i
  obtain ⟨i, _, hover⟩ := hends
  exact hover (hall i).waits

/-- What happens at all happens at a first time. -/
theorem first_returned (hex : ∃ i v, (t, .returned (.verdict v)) ∈ events (c.history i)) :
    ∃ i m es v, c.history (i + 1) = c.history i ++ [⟨t, m, es⟩] ∧
      .returned (.verdict v) ∈ es ∧
      ∀ v, (t, .returned (.verdict v)) ∉ events (c.history i) := by
  classical
  obtain ⟨v, hv⟩ := Nat.find_spec hex
  have hfirst (i) (hi : i < Nat.find hex) (v) :
      (t, .returned (.verdict v)) ∉ events (c.history i) :=
    fun he => Nat.find_min hex hi ⟨v, he⟩
  cases hi : Nat.find hex with
  | zero =>
    rw [hi] at hv
    cases hv
  | succ i =>
    have hbefore := hfirst i (by omega)
    rw [hi, history, events_append, List.mem_append] at hv
    have hnow := hv.resolve_left (hbefore v)
    rcases c.next_cases i with ⟨hact, _⟩ | ⟨u, m, es, hact, hstep⟩
    · simp [record, hact] at hnow
    · rw [record_of_step hact hstep] at hnow
      obtain ⟨he, rfl⟩ : .returned (.verdict v) ∈ es ∧ u = t := by
        simpa [events] using hnow
      exact ⟨i, m, es, v, by rw [history, record_of_step hact hstep], he, hbefore⟩

end Course

/-! ## One worker -/

/-- Thread `t` is about to add these jobs while nothing else waits, and `w`, which
sleeps, is the only worker. -/
structure Pool.HandsOver (t w : Nat) (jobs : List J) (p : Pool J) : Prop where
  adding : (p.thread t).duty = .adding jobs
  noWork : p.ledger.pending = []
  asleep : (p.thread w).duty = .looping .worker .asleep
  sole : p.Sole w

theorem Reached.worker_in_turn (hr : Reached n h p) (hp : p.HandsOver t w jobs)
    (hk : Run p k q) (hu : Undisturbed p k) (hm : ∀ m ∈ k, m.Silent) :
    q.Sole w ∧ q.Settled ∧ q.ledger.batchSize = p.ledger.batchSize ∧ AtOnce jobs k q ∧
      InTurn w p.ledger.batchSize (jobsAdded k) k q := by
  have hstart : InTurn w p.ledger.batchSize [] ([] : List (Moment J E)) p := by
    have hnone : (p.thread w).uncalled = [] := by simp [Thread.uncalled, hp.asleep]
    exact hp.noWork ▸ InTurn.start p.ledger.batchSize hnone
  have hmoments : ∀ m ∈ k, m.Quiet ∧ m.Silent := fun m hmem =>
    ⟨hu.quiet m hmem, hm m hmem⟩
  refine hk.induct_all (C := fun k q => q.Sole w ∧ q.Settled ∧
    q.ledger.batchSize = p.ledger.batchSize ∧
    AtOnce jobs k q ∧ InTurn w p.ledger.batchSize (jobsAdded k) k q) hmoments
    ⟨hp.sole, hu.settled, rfl, .start hr.sound hp.adding, hstart⟩ ?_
  rintro k x y u m es hkx ⟨hsole, hset, hsize, honce, hturn⟩ ⟨hquiet, hsilent⟩ hstep
  have hrx : Reached n (h ++ k) x := Run.trans hr hkx
  obtain ⟨honce', hadd⟩ := honce.step hrx.sound hsilent hstep
  have hnext := hturn.step hsole hrx.counted hrx.sound hsize hstep hadd
  have hadded : jobsAdded k ++ es.flatMap Event.addedJobs =
      jobsAdded (k ++ [⟨u, m, es⟩]) := by simp [jobsAdded]
  rw [hadded] at hnext
  exact ⟨hsole.step hset hstep fun _ => .inr hsilent, hset.step hquiet hstep,
    (hset.batchSize_eq hstep).trans hsize, honce', hnext⟩

namespace Course

/-- Once awake, a worker that is alone sleeps only when all is done. -/
theorem awake_of_le (hr : Reached n h (c.state 0)) (hsole : ∀ i, (c.state i).Sole w)
    {i j : Nat} (hij : i ≤ j) (hi : ((c.state i).thread w).isAsleep = false)
    (hbusy : ∀ k, i ≤ k → (c.state k).ledger.todo ≠ 0) :
    ((c.state j).thread w).isAsleep = false := by
  induction j, hij using Nat.le_induction with
  | base => exact hi
  | succ j hij ih =>
    rcases c.next_cases j with ⟨_, hsame⟩ | ⟨u, m, es, _, hstep⟩
    · rwa [hsame]
    · rw [Bool.eq_false_iff]
      intro hasleep
      obtain ⟨role, hd⟩ := Thread.exists_of_isAsleep hasleep
      obtain ⟨o, hs, ht⟩ := turns_of_step hstep
      by_cases hu : w = u
      · subst hu
        obtain ⟨hor, hpending, _⟩ := hs.of_asleep (ht.self ▸ hd)
        have hnone := (hor.resolve_left fun hd' => by simp [Thread.isAsleep, hd'] at ih).1
        have htodo := (hsole (j + 1)).todo_eq (c.sound hr (j + 1))
        rw [ht.ledger, hpending, hnone] at htodo
        exact hbusy (j + 1) (by omega)
          (by rw [ht.ledger, htodo]; simp [Thread.inFlight, hd])
      · have hd' := (ht.asleep_before hu hd).1
        simp [Thread.isAsleep, hd'] at ih

/-- The worker carries out all jobs. -/
theorem Fair.worker_drains (hf : c.Fair) (hr : Reached n h (c.state 0))
    (hp : (c.state 0).HandsOver t w jobs)
    (hu : ∀ i, Undisturbed (c.state 0) (c.history i))
    (hm : ∀ i, ∀ m ∈ c.history i, m.Silent)
    (hrunning : ∀ i, (c.state i).ledger.shuttingDown = false) (hcode : c.CodeEnds w) :
    ∃ i, DoneInTurn w (c.state 0).ledger.batchSize jobs (c.history i) := by
  have hall (i) := hr.worker_in_turn hp (c.run_history i) (hu i) (hm i)
  have hne : w ≠ t := by
    rintro rfl
    cases hp.asleep.symm.trans hp.adding
  obtain ⟨i, k, _, hrousing, hhistory, hmem⟩ := hf.adds hr hp.adding
  have hadded : (t, .added jobs) ∈ events (c.history i) := by
    rw [hhistory, events_append]
    exact List.mem_append_right _ hmem
  obtain ⟨j, hij, hawake⟩ := hf.rouses hr hrousing (fun j => (hall j).1) hne
  have honce (k) (hk : j ≤ k) : jobsAdded (c.history k) = jobs :=
    (hall k).2.2.2.1.added (mem_events_of_le (by omega) hadded)
  have hjobs : jobs ≠ [] := ((hr.sound.threads t).of_adding hp.adding).1
  -- The jobs are done when nothing is under way.
  suffices hdone : ∃ k, j ≤ k ∧ (c.state k).ledger.todo = 0 by
    obtain ⟨k, hjk, htodo⟩ := hdone
    obtain ⟨hsole, _, _, _, hturn⟩ := hall k
    rw [hsole.todo_eq (c.sound hr k)] at htodo
    rw [honce k hjk] at hturn
    exact ⟨k, hturn.done hr.one_le_batchSize hjobs (List.length_eq_zero_iff.1 (by omega))
      (by omega)⟩
  by_contra hbusy
  have hbusy (k) (hk : j ≤ k) : (c.state k).ledger.todo ≠ 0 := fun htodo =>
    hbusy ⟨k, hk, htodo⟩
  refine (hf.not_toils hr hcode : ¬ c.Toils w .worker j) ?_
  exact {
    sole := fun k _ => (hall k).1
    awake := fun k hk => by
      have hspawned : w ∈ workersSpawned (h ++ c.history k) := by
        rw [workersSpawned, collect_append]
        exact List.mem_append_left _ (hr.mem_workersSpawned hp.asleep)
      obtain ⟨stage, hd, _⟩ :=
        Reached.worker_remains (Run.trans hr (c.run_history k)) (hrunning k) hspawned
      refine ⟨stage, hd, ?_⟩
      rintro rfl
      have hstays := awake_of_le hr (fun i => (hall i).1) hk hawake hbusy
      simp [Thread.isAsleep, hd] at hstays
    finds := fun k hk hd hnone => by
      have htodo := (hall k).1.todo_eq (c.sound hr k)
      refine absurd ?_ (hbusy k hk)
      rw [htodo, hnone]
      simp [Thread.inFlight, hd]
    calls := fun k _ => hf.call_ends hr w k fun l call v _ hcall hv => by
      have hfits := (c.orderly hr l).calls w call hcall
      unfold Call.waitsFor at hv
      split at hv
      · exact absurd hfits.1.flag (by simp [hrunning l])
      · cases hv
    closed := fun k u m es hk hact hstep => by
      have hsilent : m.calls = [] :=
        hm (k + 1) ⟨u, m, es⟩ (by simp [history, record_of_step hact hstep])
      refine ((hall k).2.2.2.1.step (c.sound hr k) hsilent hstep).2.resolve_left
        fun hnone => hjobs ?_
      exact (honce k hk).symm.trans hnone }

end Course

/-! ## Jobs that are carried out in turn -/

/-- A round is drained in order, in few batches, by the one thread that takes part.

What waits was added and not yet taken, in the order of the additions. If the opener
begins to wait while there are no workers, or all of them have left, then it is never
asleep until it has the verdict, nobody else takes jobs, and it takes and calls them in
their order; when it has the verdict all of them are done, in the batches of a thread
that is alone. Under a fair schedule it gets the verdict if the code of the jobs
terminates. And if jobs are added to a pool with one worker, which sleeps, and the
opener neither waits nor adds more, the worker does the same with these jobs. Nobody
sets the batch size or starts workers meanwhile, and the pool with the worker is not
stopped. -/
theorem Reached.drained_in_turn (hr : Reached n h p) :
    1 ≤ p.ledger.batchSize ∧ jobsTaken h ++ p.ledger.pending = jobsAdded h ∧
    (∀ t, (p.thread t).duty = .looping (.owner .waiting) .entering → p.Unstaffed →
      p.ledger.pending ≠ [] → (∀ (k : List (Moment J E)) q, Run p k q → Undisturbed p k →
        (∀ v, (t, .returned (.verdict v)) ∉ events k) →
        (q.thread t).sleeps = false ∧ InTurn t p.ledger.batchSize p.ledger.pending k q) ∧
      (∀ (k : List (Moment J E)) m es q v, Run p (k ++ [⟨t, m, es⟩]) q → Undisturbed p k →
        (∀ v, (t, .returned (.verdict v)) ∉ events k) → .returned (.verdict v) ∈ es →
        DoneInTurn t p.ledger.batchSize p.ledger.pending (k ++ [⟨t, m, es⟩])) ∧
      ∀ c : Course J E, c.state 0 = p → c.Fair → c.CodeEnds t →
        (∀ i, (∀ v, (t, .returned (.verdict v)) ∉ events (c.history i)) →
          Undisturbed p (c.history i)) →
        ∃ i m es v, c.history (i + 1) = c.history i ++ [⟨t, m, es⟩] ∧
          .returned (.verdict v) ∈ es ∧
          DoneInTurn t p.ledger.batchSize p.ledger.pending (c.history (i + 1))) ∧
    ∀ t w jobs, p.HandsOver t w jobs →
      (∀ (k : List (Moment J E)) q, Run p k q → Undisturbed p k → (∀ m ∈ k, m.Silent) →
        (jobsAdded k = [] ∨ jobsAdded k = jobs) ∧
          InTurn w p.ledger.batchSize (jobsAdded k) k q) ∧
      ∀ c : Course J E, c.state 0 = p → c.Fair → c.CodeEnds w →
        (∀ i, ¬ DoneInTurn w p.ledger.batchSize jobs (c.history i) →
          Undisturbed p (c.history i) ∧
          (∀ m ∈ c.history i, m.Silent) ∧ (c.state i).ledger.shuttingDown = false) →
        ∃ i, DoneInTurn w p.ledger.batchSize jobs (c.history i) := by
  refine ⟨hr.one_le_batchSize, hr.taken_append_pending, fun t hd hunstaffed hwork => ?_,
    fun t w jobs hp => ⟨fun k q hk hu hm => ?_, ?_⟩⟩
  · have hp : p.WaitsAlone t := .of_unstaffed hunstaffed hr.sound hd
    have hnone : (p.thread t).uncalled = [] := by simp [Thread.uncalled, hd]
    refine ⟨fun k q hk hu hv => ?_, fun k m es q v hk hu hv he =>
      hr.done_of_returned hp hnone hwork hk hu hv he, ?_⟩
    · obtain ⟨hq, _, _, hturn⟩ := hr.waits_in_turn hp hnone hk hu hv
      exact ⟨hq.awake, hturn⟩
    · rintro c rfl hf hcode hu
      obtain ⟨i, m, es, v, hnext, he, hv⟩ :=
        Course.first_returned (hf.wait_returns hr hp hnone hu hcode)
      refine ⟨i, m, es, v, hnext, he, ?_⟩
      have hrun := c.run_history (i + 1)
      rw [hnext] at hrun ⊢
      exact hr.done_of_returned hp hnone hwork hrun (hu i hv) hv he
  · obtain ⟨_, _, _, honce, hturn⟩ := hr.worker_in_turn hp hk hu hm
    exact ⟨honce.imp And.left And.left, hturn⟩
  · rintro c rfl hf hcode hcalm
    by_contra hundone
    have hcalm (i) := hcalm i fun hdone => hundone ⟨i, hdone⟩
    exact hundone (hf.worker_drains hr hp (fun i => (hcalm i).1) (fun i => (hcalm i).2.1)
      (fun i => (hcalm i).2.2) hcode)

/-- Five jobs are carried out by `t`, two of them in its first batch and one in each of
the others. -/
def fourBatches (t : Nat) : List (Nat × Move Nat Unit) :=
  List.flatten [carryOut t true, carryOut t true, onward t 5, carryOut t true, onward t 5,
    carryOut t true, onward t 5, carryOut t true]

/-- A worker is started and stopped again; then a client adds four jobs and another one,
and begins to wait. -/
def deserted : List (Nat × Move Nat Unit) :=
  List.flatten [[(0, .request (.start 1))], onward 0 3, [(0, .spawn 1)], onward 0 4,
    [(0, .request .stop)],
    onward 0 5, onward 1 6, onward 0 2, [(0, .openRound)], onward 0 4,
    [(0, .add [1, 2, 3, 4])], onward 0 3, [(0, .add [5])], onward 0 2,
    [(0, .rouse none), (0, .wait)]]

def desertedRun : Pool Nat × List (Moment Nat Unit) := played 2 deserted

def desertedCourse : Course Nat Unit :=
  .playing desertedRun.1 (onward 0 4 ++ fourBatches 0 ++ onward 0 9) (by decide +kernel)

/-- A client is about to add five jobs to a pool of one worker, which sleeps. -/
def handedOver : List (Nat × Move Nat Unit) :=
  List.flatten [[(0, .request (.start 1))], onward 0 3, [(0, .spawn 1)], onward 0 4,
    onward 1 4, [(0, .openRound)], onward 0 4, [(0, .add [1, 2, 3, 4, 5])]]

def handedOverRun : Pool Nat × List (Moment Nat Unit) := played 2 handedOver

def handedOverCourse : Course Nat Unit :=
  .playing handedOverRun.1 (onward 0 3 ++ onward 1 2 ++ fourBatches 1 ++ onward 1 6)
    (by decide +kernel)

theorem act_deserted (k : Nat) (hk : 43 ≤ k) : desertedCourse.act k = none :=
  List.getElem?_eq_none hk

theorem act_handedOver (k : Nat) (hk : 41 ≤ k) : handedOverCourse.act k = none :=
  List.getElem?_eq_none hk

theorem undisturbed_deserted (i : Nat) :
    Undisturbed desertedRun.1 (desertedCourse.history i) where
  settled := settled_of_all (by decide +kernel)
  quiet m hm := by
    have hall : ∀ m ∈ desertedCourse.history 43, m.Quiet := by decide +kernel
    exact hall m (Course.mem_history_of_rest act_deserted hm)

theorem undisturbed_handedOver (i : Nat) :
    Undisturbed handedOverRun.1 (handedOverCourse.history i) where
  settled := settled_of_all (by decide +kernel)
  quiet m hm := by
    have hall : ∀ m ∈ handedOverCourse.history 41, m.Quiet := by decide +kernel
    exact hall m (Course.mem_history_of_rest act_handedOver hm)

theorem unstaffed_deserted : desertedRun.1.Unstaffed := by
  have hthreads :
      desertedRun.1.threads =
      [⟨.looping (.owner .waiting) .entering, none, some { added := 5 }⟩,
      ⟨.finished, none, none⟩] := rfl
  intro u stage hd
  rcases thread_mem_or_default desertedRun.1 u with hmem | hnew
  · rw [hthreads] at hmem
    rcases List.mem_pair.1 hmem with hu | hu <;> rw [hu] at hd <;> cases hd
  · rw [hnew] at hd
    cases hd

theorem handsOver_handedOver : handedOverRun.1.HandsOver 0 1 [1, 2, 3, 4, 5] where
  adding := rfl
  noWork := rfl
  asleep := rfl
  sole u hu := by
    rcases u with _ | _ | u
    · rfl
    · exact absurd rfl hu
    · rfl

/-- Both come to the same four batches. -/
theorem five_jobs_in_turn :
    Reached 2 desertedRun.2 desertedRun.1 ∧ Reached 2 handedOverRun.2 handedOverRun.1 ∧
    Ledger.soleBatches 2 [1, 2, 3, 4, 5] = [[1, 2], [3], [4], [5]] ∧
    (∃ i, DoneInTurn 0 2 [1, 2, 3, 4, 5] (desertedCourse.history i)) ∧
    ∃ i, DoneInTurn 1 2 [1, 2, 3, 4, 5] (handedOverCourse.history i) := by
  have hr : Reached 2 desertedRun.2 desertedRun.1 := .of_played (by decide +kernel)
  have hr' : Reached 2 handedOverRun.2 handedOverRun.1 := .of_played (by decide +kernel)
  obtain ⟨_, _, halone, _⟩ := Reached.drained_in_turn hr
  obtain ⟨_, _, _, hworker⟩ := Reached.drained_in_turn hr'
  have hfair : desertedCourse.Fair :=
    Course.fair_of_rest act_deserted (not_canGoOn_of_needs (by decide +kernel))
  have hcode : desertedCourse.CodeEnds 0 :=
    Course.codeEnds_of_rest act_deserted (by decide +kernel) (by decide +kernel)
  have hfair' : handedOverCourse.Fair :=
    Course.fair_of_rest act_handedOver (not_canGoOn_of_needs (by decide +kernel))
  have hcode' : handedOverCourse.CodeEnds 1 :=
    Course.codeEnds_of_rest act_handedOver (by decide +kernel) (by decide +kernel)
  have hsilent : ∀ m ∈ handedOverCourse.history 41, m.Silent := by decide +kernel
  have hrunning : ∀ k ≤ 41, (handedOverCourse.state k).ledger.shuttingDown = false := by
    decide +kernel
  obtain ⟨_, _, hreturns⟩ := halone 0 rfl unstaffed_deserted (by decide +kernel)
  obtain ⟨i, m, es, v, _, _, hdone⟩ :=
    hreturns desertedCourse (trail_zero _ _) hfair hcode fun i _ => undisturbed_deserted i
  obtain ⟨_, hdrains⟩ := hworker 0 1 [1, 2, 3, 4, 5] handsOver_handedOver
  obtain ⟨j, hdone'⟩ := hdrains handedOverCourse (trail_zero _ _) hfair' hcode' fun i _ =>
    ⟨undisturbed_handedOver i,
      fun m hm => hsilent m (Course.mem_history_of_rest act_handedOver hm),
      Course.forall_of_rest (P := fun p => p.ledger.shuttingDown = false) act_handedOver
        hrunning i⟩
  have hbatches : Ledger.soleBatches 2 [1, 2, 3, 4, 5] = [[1, 2], [3], [4], [5]] := by
    simp [Ledger.soleBatches, Ledger.soleShares, Ledger.share]
  exact ⟨hr, hr', hbatches, ⟨i + 1, hdone⟩, ⟨j, hdone'⟩⟩

end CheckRounds
