import CheckRounds.Proofs.Moderation
import CheckRounds.Proofs.Pool.Leaving
import CheckRounds.Proofs.Pool.SingleAdd
/-!
Jobs that are added to a pool of sleepers are spread over them evenly.

While no batch has been reported, each worker sleeps, is on its way back from its sleep,
or has the one batch that it took. So the divisor of a share counts those that have a
batch once, and those that are still to come twice; it falls by one with each batch, and
the sizes of the batches are a sequence of their own (`Ledger.spread`). A worker that
was roused in vain finds nothing left, so nobody goes away empty-handed while something
waits.
-/

namespace CheckRounds

open Pool

variable {J E : Type} {n t u W : Nat} {h k : List (Moment J E)} {m : Move J E}
  {es : List (Event J E)} {p q r : Pool J} {o : Upshot J E} {jobs : List J} {role : Role}

/-! ## From sleep to the first report -/

/-- The stages of a thread from its sleep to the report of its first batch. -/
def LoopStage.isEarly : LoopStage J → Bool
  | .asleep => true
  | .waking => true
  | .taking => true
  | .executing _ => true
  | .reporting _ => true
  | _ => false

namespace Thread

/-- If the thread is in the work loop then it is a worker, and has not reported a batch
since it slept. -/
def Early (th : Thread J) : Prop :=
  ∀ role stage, th.duty = .looping role stage → role = .worker ∧ stage.isEarly = true

/-- The thread has a batch that it has not reported. -/
def holds (th : Thread J) : Bool :=
  match th.duty with
  | .looping _ (.executing _) => true
  | .looping _ (.reporting _) => true
  | _ => false

/-- The thread is back from its sleep, and about to look for work. -/
def looks (th : Thread J) : Bool :=
  match th.duty with
  | .looping _ .taking => true
  | _ => false

theorem early_roused (th : Thread J) : th.roused.Early ↔ th.Early :=
  roused_iff (fun th role hd => by simp [Early, hd, LoopStage.isEarly]) th

theorem holds_of_duty {th : Thread J} {d : Duty J} (hd : th.duty = d) :
    th.holds = ({ duty := d } : Thread J).holds := by
  rw [← hd]
  rfl

theorem holds_roused (th : Thread J) : th.roused.holds = th.holds :=
  apply_roused (fun _ _ hd => (holds_of_duty hd).symm) th

theorem looks_of_duty {th : Thread J} {d : Duty J} (hd : th.duty = d) :
    th.looks = ({ duty := d } : Thread J).looks := by
  rw [← hd]
  rfl

theorem looks_roused (th : Thread J) : th.roused.looks = th.looks :=
  apply_roused (fun _ _ hd => (looks_of_duty hd).symm) th

/-- Such a thread is in the work loop in one of three ways. -/
theorem Early.loops_eq {th : Thread J} (h : th.Early) :
    th.loops.toNat = th.sleeps.toNat + th.holds.toNat + th.looks.toNat := by
  cases hd : th.duty with
  | looping role stage =>
    have hearly := (h role stage hd).2
    rw [loops_of_duty hd, sleeps_of_duty hd, holds_of_duty hd, looks_of_duty hd]
    cases stage <;> first | rfl | cases hearly
  | _ =>
    rw [loops_of_duty hd, sleeps_of_duty hd, holds_of_duty hd, looks_of_duty hd]
    rfl

theorem Early.participates_eq {th : Thread J} (h : th.Early) :
    th.participates = th.loops := by
  cases hd : th.duty with
  | looping role stage =>
    have hearly := (h role stage hd).2
    rw [loops_of_duty hd, participates_of_duty hd]
    cases stage <;> first | rfl | cases hearly
  | _ =>
    rw [loops_of_duty hd, participates_of_duty hd]
    rfl

end Thread

/-- With this moment no batch is reported. -/
def Moment.Unreporting (m : Moment J E) : Prop := m.events.flatMap Event.tallies = []

instance (m : Moment J E) : Decidable m.Unreporting :=
  decidable_of_iff ((m.events.flatMap Event.tallies).isEmpty = true) List.isEmpty_iff

/-- A thread stays on the way as long as it reports nothing, and is not sent away. -/
theorem Shift.early {l : Ledger J} {s : Option Nat} {th : Thread J}
    (h : Shift t l s th m o) (hth : th.Early) (hf : l.shuttingDown = false)
    (hm : m.calls = []) (hr : o.events.flatMap Event.tallies = []) :
    o.thread.Early := by
  cases h with
  | still | clerical | configure | flag | spawn | retell => exact hth
  | alarm => exact (Thread.early_roused th).2 hth
  | enter hd | announce hd | leave hd => cases (hth _ _ hd).2
  | quit _ flag => cases hf.symm.trans flag
  | drain hd => cases (hth _ _ hd).1
  | take hd | sleep hd | stir hd | wake hd | work hd | finish hd =>
    obtain ⟨rfl, _⟩ := hth _ _ hd
    rintro role stage hd
    obtain ⟨rfl, rfl⟩ := Duty.looping.inj hd
    exact ⟨rfl, rfl⟩
  | report => cases hr
  | engage _ _ _ hm' => rcases hm' with ⟨rfl, _⟩ | ⟨u, rfl, _⟩ <;> cases hm
  | _ => exact fun role stage hd => nomatch hd

/-- It neither enters the work loop nor leaves it. -/
theorem Shift.loops_eq {l : Ledger J} {s : Option Nat} {th : Thread J}
    (h : Shift t l s th m o) (hth : th.Early) (hm : m.calls = []) :
    o.thread.loops = th.loops := by
  cases h with
  | still | clerical | configure | flag | spawn | retell => rfl
  | alarm => exact Thread.loops_roused th
  | leave hd => cases (hth _ _ hd).2
  | seize _ hd => rcases hd with hd | hd <;> exact (Thread.loops_of_duty hd).symm
  | engage _ _ _ hm' => rcases hm' with ⟨rfl, _⟩ | ⟨u, rfl, _⟩ <;> cases hm
  | opened hd | submit hd | push hd | answer hd | conclude hd | reset hd | release hd
  | knock hd | rouseAll hd | rouseOne hd | dismiss hd | enter hd | quit hd | take hd
  | drain hd | sleep hd | stir hd | wake hd | work hd | finish hd | report hd
  | announce hd => exact (Thread.loops_of_duty hd).symm

/-- It gets a batch by taking one. -/
theorem Shift.holds_eq {l : Ledger J} {s : Option Nat} {th : Thread J}
    (h : Shift t l s th m o) (hr : o.events.flatMap Event.tallies = [])
    (hb : o.events.flatMap Event.batches = []) :
    o.thread.holds = th.holds := by
  cases h with
  | still | clerical | configure | flag | spawn | retell => rfl
  | alarm => exact Thread.holds_roused th
  | take => cases hb
  | report => cases hr
  | @leave role v hd =>
    rw [Thread.holds_of_duty hd]
    cases role <;> rfl
  | seize _ hd => rcases hd with hd | hd <;> exact (Thread.holds_of_duty hd).symm
  | opened hd | submit hd | push hd | answer hd | conclude hd | reset hd | release hd
  | knock hd | rouseAll hd | rouseOne hd | engage hd | dismiss hd | enter hd | quit hd
  | drain hd | sleep hd | stir hd | wake hd | work hd | finish hd | announce hd =>
    exact (Thread.holds_of_duty hd).symm

/-- It looks for work when it comes back from its sleep. -/
theorem Shift.looks_cases {l : Ledger J} {s : Option Nat} {th : Thread J}
    (h : Shift t l s th m o) (hth : th.Early) (hr : o.events.flatMap Event.tallies = [])
    (hl : o.thread.looks = true) :
    th.looks = true ∨ ∃ role, th.duty = .looping role .waking := by
  cases h with
  | still | clerical | configure | flag | spawn | retell => exact .inl hl
  | alarm => exact .inl ((Thread.looks_roused th).symm.trans hl)
  | enter hd | announce hd | leave hd => cases (hth _ _ hd).2
  | wake hd => exact .inr ⟨_, hd⟩
  | report => cases hr
  | _ => cases hl

/-! ## The ledger is with the one that is back -/

/-- Each thread in the work loop sleeps, comes back from its sleep, or has its first
batch. Who is back has the ledger. -/
structure Pool.Astir (p : Pool J) : Prop where
  early : ∀ u, (p.thread u).Early
  back : ∀ u, (p.thread u).looks = true → p.ledgerLock = some u

theorem Thread.exists_of_looks {th : Thread J} (h : th.looks = true) :
    ∃ role, th.duty = .looping role .taking := by
  unfold looks at h
  split at h
  · exact ⟨_, ‹_›⟩
  · cases h

/-- Who comes back from its sleep takes the ledger with the same step. -/
theorem Pool.Orderly.step_of_waking (ho : p.Orderly)
    (hd : (p.thread t).duty = .looping role .waking) (h : p.step t m = some (q, es)) :
    q.ledgerLock = some t := by
  cases ho.dutyStep_of_step (by simp [Thread.MayCall, hd]) hd h with
  | lockLedger need => cases need
  | wake => rfl

/-- Who looks for work does not do so twice. -/
theorem Pool.Orderly.step_of_looking (ho : p.Orderly)
    (hd : (p.thread t).duty = .looping role .taking) (h : p.step t m = some (q, es)) :
    q.ledgerLock = some t ∨ (q.thread t).looks = false := by
  cases loopStep_of_step ho hd h with
  | nearer less =>
    refine .inr ?_
    by_contra hlooks
    obtain ⟨role', hd'⟩ := Thread.exists_of_looks (by simpa using hlooks)
    rw [remaining_of_looping hd, remaining_of_looping hd'] at less
    exact absurd less (Nat.lt_irrefl _)
  | takes _ _ _ _ begins => exact .inr (Thread.looks_of_duty begins)
  | sleeps _ _ _ _ falls => exact .inr (Thread.looks_of_duty falls)
  | takesLedger grip => exact .inl (by rw [grip.after])
  | inJob runs => simp [Thread.inJob, hd] at runs

theorem Pool.Astir.step (hp : p.Astir) (ho : p.Orderly) (hset : p.Settled)
    (hf : p.ledger.shuttingDown = false) (hstep : p.step t m = some (q, es))
    (hm : m.calls = []) (hr : es.flatMap Event.tallies = []) : q.Astir := by
  obtain ⟨o, hs, ht⟩ := turns_of_step hstep
  have hr' : o.events.flatMap Event.tallies = [] := ht.events ▸ hr
  constructor
  · intro u
    by_cases hu : u = t
    · subst hu
      rw [ht.self]
      exact hs.early (hp.early u) hf hm hr'
    · rw [ht.same_of_settled hs hset (fun th => propext (Thread.early_roused th)) hu]
      exact hp.early u
  · intro u hlooks
    by_cases hu : u = t
    · subst hu
      rcases hs.looks_cases (hp.early u) hr' (ht.self ▸ hlooks) with hbefore | ⟨role, hd⟩
      · obtain ⟨role, hd⟩ := Thread.exists_of_looks hbefore
        refine (ho.step_of_looking hd hstep).resolve_right fun hnot => ?_
        cases hlooks.symm.trans hnot
      · exact ho.step_of_waking hd hstep
    · rw [(ledgerGrip_of_step hstep).mine_iff hu]
      exact hp.back u ((ht.same Thread.looks_roused rfl hu).symm.trans hlooks)

/-! ## One batch after another -/

/-- All that take part are in the work loop; all but the one that looks for work have a
batch, or are idle. -/
theorem Pool.Astir.counts (hp : p.Astir) (hc : Counted p)
    (hl : (p.thread t).looks = true) :
    p.ledger.participants = p.threads.countP Thread.loops ∧
      p.ledger.idle + p.threads.countP Thread.holds + 1 =
        p.threads.countP Thread.loops := by
  have hearly : ∀ th ∈ p.threads, th.Early := by
    intro th hth
    obtain ⟨u, rfl⟩ := exists_thread_of_mem hth
    exact hp.early u
  have hlooks : p.threads.countP Thread.looks = 1 := by
    rw [← total_toNat, total_eq_of_sole (f := fun th => th.looks.toNat) (t := t) rfl, hl]
    · rfl
    · intro u hu
      have hnot : (p.thread u).looks = false := by
        by_contra hlu
        have hlock := (hp.back u (by simpa using hlu)).symm.trans (hp.back t hl)
        exact hu (Option.some.inj hlock)
      rw [hnot]
      rfl
  constructor
  · rw [hc.participants]
    exact List.countP_congr fun th hth => by rw [(hearly th hth).participates_eq]
  · rw [hc.idle, ← hlooks, ← total_toNat, ← total_toNat, ← total_toNat, ← total_toNat,
      total_congr fun th hth => (hearly th hth).loops_eq, total_add, total_add]

/-- What becomes of the batches with a step: nothing, or the thread takes one. -/
inductive GrabStep (p : Pool J) (t : Nat) (q : Pool J) (es : List (Event J E)) :
    Prop where
  | none (nothing : es.flatMap Event.batches = [])
      (waiting : q.ledger.pending = p.ledger.pending ++ es.flatMap Event.addedJobs)
      (same : ∀ u, (q.thread u).holds = (p.thread u).holds)
  | one (looks : (p.thread t).looks = true) (work : p.ledger.pending ≠ [])
      (batch : es.flatMap Event.batches = [p.ledger.batch])
      (waiting : q.ledger.pending = p.ledger.take.pending)
      (closed : es.flatMap Event.addedJobs = []) (holds : (q.thread t).holds = true)
      (same : ∀ u, u ≠ t → (q.thread u).holds = (p.thread u).holds)

theorem Pool.grabStep_of_step (hstep : p.step t m = some (q, es))
    (hr : es.flatMap Event.tallies = []) : GrabStep p t q es := by
  obtain ⟨o, hs, ht⟩ := turns_of_step hstep
  have hothers : ∀ u, u ≠ t → (q.thread u).holds = (p.thread u).holds := fun u hu =>
    ht.same Thread.holds_roused rfl hu
  have hall (hb : o.events.flatMap Event.batches = []) : ∀ u,
      (q.thread u).holds = (p.thread u).holds := by
    intro u
    by_cases hu : u = t
    · subst hu
      rw [ht.self, hs.holds_eq (ht.events ▸ hr) hb]
    · exact hothers u hu
  rcases hs.pending_cases
    with ⟨hpending, hadded, hnone⟩ | ⟨jobs, hd, rfl⟩ | ⟨role, hd, hwork, rfl⟩
  · exact .none (ht.events ▸ hnone)
      (by rw [ht.ledger, ht.events, hpending, hadded, List.append_nil]) (hall hnone)
  · exact .none (by rw [ht.events]; rfl)
      (by rw [ht.ledger, ht.events]; simp [Event.addedJobs]) (hall rfl)
  · refine .one (Thread.looks_of_duty hd) hwork (by rw [ht.events]; rfl)
      (by rw [ht.ledger])
      (by rw [ht.events]; rfl) ?_ hothers
    rw [ht.self]
    rfl

namespace GrabStep

/-- Who takes a batch has it from then on, and nobody gets rid of one. -/
theorem holding (hg : GrabStep p t q es) (hu : (p.thread u).holds = true) :
    (q.thread u).holds = true := by
  cases hg with
  | none _ _ same => rwa [same u]
  | one _ _ _ _ _ holds same =>
    by_cases hut : u = t
    · rwa [hut]
    · rwa [same u hut]

theorem holds_of_batch (hg : GrabStep p t q es) {batch : List J}
    (hb : batch ∈ es.flatMap Event.batches) :
    (p.thread t).holds = false ∧ (q.thread t).holds = true := by
  cases hg with
  | none nothing =>
    rw [nothing] at hb
    cases hb
  | one looks _ _ _ _ holds =>
    obtain ⟨role, hd⟩ := Thread.exists_of_looks looks
    exact ⟨Thread.holds_of_duty hd, holds⟩

theorem countP_holds (hg : GrabStep p t q es) :
    q.threads.countP Thread.holds =
      p.threads.countP Thread.holds + (es.flatMap Event.batches).length := by
  cases hg with
  | none nothing _ same =>
    rw [nothing]
    exact countP_eq_of_forall rfl same
  | one looks _ batch _ _ holds same =>
    obtain ⟨role, hd⟩ := Thread.exists_of_looks looks
    have hbefore : (p.thread t).holds = false := Thread.holds_of_duty hd
    have hchange :=
      total_change (f := fun th => th.holds.toNat) (p := p) (q := q) (t := t) rfl
      fun u hu => congrArg Bool.toNat (same u hu)
    rw [total_toNat, total_toNat, hbefore, holds] at hchange
    rw [batch]
    exact hchange

end GrabStep

/-- What holds along a run in which jobs are added to a pool of `W` sleepers, while no
batch is reported. -/
structure Spreading (W : Nat) (jobs : List J) (p : Pool J) (k : List (Moment J E))
    (q : Pool J) : Prop where
  astir : q.Astir
  settled : q.Settled
  cap : q.ledger.batchSize = p.ledger.batchSize
  atOnce : AtOnce jobs k q
  loops : ∀ u, (q.thread u).loops = (p.thread u).loops
  crew : q.threads.countP Thread.loops = W
  holders : q.threads.countP Thread.holds = (grabs k).length
  holding : ∀ g ∈ grabs k, (q.thread g.1).holds = true
  distinct : ((grabs k).map Prod.fst).Nodup
  sizes :
    grabSizes k ++ Ledger.spread p.ledger.batchSize W (W - (grabs k).length)
    q.ledger.pending.length =
    Ledger.spread p.ledger.batchSize W W (jobsAdded k).length

namespace Spreading

/-- The next one that looks for work takes the next share. -/
theorem sizes_step (hk : Spreading W jobs p k q) (hc : Counted q)
    (hflow : jobsTaken k ++ q.ledger.pending = jobsAdded k)
    (hadd : jobsAdded k = [] ∨ es.flatMap Event.addedJobs = []) (hg : GrabStep q t r es) :
    grabSizes (k ++ [⟨t, m, es⟩]) ++ Ledger.spread p.ledger.batchSize W
        (W - (grabs (k ++ [⟨t, m, es⟩])).length) r.ledger.pending.length =
      Ledger.spread p.ledger.batchSize W W (jobsAdded (k ++ [⟨t, m, es⟩])).length := by
  have hadded :
      jobsAdded (k ++ [⟨t, m, es⟩]) = jobsAdded k ++ es.flatMap Event.addedJobs := by
        simp [jobsAdded]
  have hsizes := hk.sizes
  rw [hadded, grabSizes_append, grabs_append, grabs_singleton]
  cases hg with
  | none nothing waiting =>
    have hlast : grabSizes [(⟨t, m, es⟩ : Moment J E)] = [] := by
      simp [grabSizes, nothing]
    rw [nothing, waiting, hlast, List.map_nil, List.append_nil, List.append_nil]
    rcases hadd with hnone | hnone
    · -- Nothing was taken of what was not yet added.
      rw [hnone, List.append_eq_nil_iff] at hflow
      rw [hnone, hflow.2, List.length_nil, Ledger.spread_none, Ledger.spread_none,
        List.append_nil] at hsizes
      have hnobody : grabs k = [] := List.map_eq_nil_iff.1 hsizes
      rw [hsizes, hnobody, hnone, hflow.2]
      rfl
    · rw [hnone, List.append_nil, List.append_nil, hsizes]
  | one looks work batch waiting closed =>
    obtain ⟨hparticipants, hidle⟩ := hk.astir.counts hc looks
    rw [hk.crew] at hparticipants hidle
    rw [hk.holders] at hidle
    have hportion : q.ledger.portion =
        Ledger.share q.ledger.pending.length p.ledger.batchSize W q.ledger.idle := by
      rw [Ledger.portion, hparticipants, hk.cap]
    have hlast : grabSizes [(⟨t, m, es⟩ : Moment J E)] = [q.ledger.portion] := by
      simp [grabSizes, batch, Ledger.length_batch]
    have hleft :
        r.ledger.pending.length = q.ledger.pending.length - q.ledger.portion := by
      rw [waiting]
      exact List.length_drop
    have hbefore : W - (grabs k).length = q.ledger.idle + 1 := by omega
    have hafter : W - ((grabs k).length + 1) = q.ledger.idle := by omega
    rw [hbefore, Ledger.spread_pos _ _ _ (List.length_pos_iff.2 work),
      ← hportion] at hsizes
    rw [batch, closed, hlast, hleft, List.map_singleton, List.length_append,
      List.length_singleton, hafter, List.append_nil, List.append_assoc]
    exact hsizes

theorem step (hk : Spreading W jobs p k q) (hr : Reached n h q)
    (hflow : jobsTaken k ++ q.ledger.pending = jobsAdded k)
    (hf : q.ledger.shuttingDown = false) (hquiet : Moment.Quiet (E := E) ⟨t, m, es⟩)
    (hsilent : m.calls = []) (hreport : es.flatMap Event.tallies = [])
    (hstep : q.step t m = some (r, es)) :
    Spreading W jobs p (k ++ [⟨t, m, es⟩]) r := by
  obtain ⟨honce, hadd⟩ := hk.atOnce.step hr.sound hsilent hstep
  have hg := grabStep_of_step hstep hreport
  have hloops : ∀ u, (r.thread u).loops = (q.thread u).loops := by
    intro u
    obtain ⟨o, hs, ht⟩ := turns_of_step hstep
    by_cases hu : u = t
    · subst hu
      rw [ht.self, hs.loops_eq (hk.astir.early u) hsilent]
    · exact ht.same_of_settled hs hk.settled Thread.loops_roused hu
  have hgrabs :
      grabs (k ++ [⟨t, m, es⟩]) = grabs k ++ (es.flatMap Event.batches).map (t, ·) := by
    rw [grabs_append, grabs_singleton]
  exact {
    astir := hk.astir.step hr.orderly hk.settled hf hstep hsilent hreport
    settled := hk.settled.step hquiet hstep
    cap := (hk.settled.batchSize_eq hstep).trans hk.cap
    atOnce := honce
    loops := fun u => (hloops u).trans (hk.loops u)
    crew := (countP_eq_of_forall rfl hloops).trans hk.crew
    holders := by
      rw [hg.countP_holds, hk.holders, hgrabs, List.length_append, List.length_map]
    holding := by
      intro g hmem
      rw [hgrabs, List.mem_append, List.mem_map] at hmem
      rcases hmem with hmem | ⟨batch, hbatch, rfl⟩
      · exact hg.holding (hk.holding g hmem)
      · exact (hg.holds_of_batch hbatch).2
    distinct := by
      rw [hgrabs, List.map_append, List.nodup_append']
      refine ⟨hk.distinct, ?_, ?_⟩
      · cases hg with
        | none nothing => simp [nothing]
        | one _ _ batch => simp [batch]
      · -- Who takes a batch has none yet.
        intro u hold hnew
        obtain ⟨g, hmem, rfl⟩ := List.mem_map.1 hold
        obtain ⟨g', hmem', hsame⟩ := List.mem_map.1 hnew
        obtain ⟨batch, hbatch, rfl⟩ := List.mem_map.1 hmem'
        cases ((hg.holds_of_batch hbatch).1).symm.trans (hsame ▸ hk.holding g hmem)
    sizes := hk.sizes_step hr.counted hflow hadd hg }

end Spreading

/-! ## From the addition on -/

/-- Thread `t` is about to add these jobs while nothing else waits, and all that are in
the work loop are workers that sleep, `W` of them. -/
structure Pool.AddsToSleepers (t W : Nat) (jobs : List J) (p : Pool J) : Prop where
  adding : (p.thread t).duty = .adding jobs
  noWork : p.ledger.pending = []
  asleep : ∀ u role stage, (p.thread u).duty = .looping role stage → role = .worker ∧
    stage = .asleep
  crew : p.threads.countP Thread.isAsleep = W

/-- All that were to be roused are back, and have looked for work. -/
structure Pool.AllLooked (p : Pool J) : Prop where
  noAlarm : ∀ u, ¬ (p.thread u).OwesAlarm
  noCall : ∀ u, (p.thread u).owesCall = false
  noneAlert : ∀ u, (p.thread u).isAlert = false

theorem Thread.exists_of_loops {th : Thread J} (h : th.loops = true) :
    ∃ role stage, th.duty = .looping role stage := by
  unfold loops at h
  split at h
  · exact ⟨_, _, ‹_›⟩
  · cases h

theorem Thread.loops_of_holds {th : Thread J} (h : th.holds = true) :
    th.loops = true := by
  unfold holds at h
  split at h
  · exact Thread.loops_of_duty ‹_›
  · exact Thread.loops_of_duty ‹_›
  · cases h

namespace Pool.AddsToSleepers

theorem isAsleep_eq (hp : p.AddsToSleepers t W jobs) (u : Nat) :
    (p.thread u).isAsleep = (p.thread u).loops := by
  cases hd : (p.thread u).duty with
  | looping role stage =>
    obtain ⟨rfl, rfl⟩ := hp.asleep u role stage hd
    simp [Thread.isAsleep, Thread.loops, hd]
  | _ => simp [Thread.isAsleep, Thread.loops, hd]

theorem holds_eq (hp : p.AddsToSleepers t W jobs) (u : Nat) :
    (p.thread u).holds = false := by
  rw [Bool.eq_false_iff]
  intro hholds
  obtain ⟨role, stage, hd⟩ := Thread.exists_of_loops (Thread.loops_of_holds hholds)
  obtain ⟨rfl, rfl⟩ := hp.asleep u role stage hd
  cases (Thread.holds_of_duty hd).symm.trans hholds

theorem astir (hp : p.AddsToSleepers t W jobs) : p.Astir where
  early u role stage hd := by
    obtain ⟨rfl, rfl⟩ := hp.asleep u role stage hd
    exact ⟨rfl, rfl⟩
  back u hlooks := by
    obtain ⟨role, hd⟩ := Thread.exists_of_looks hlooks
    cases (hp.asleep u role _ hd).2

theorem spreading (hp : p.AddsToSleepers t W jobs) (hs : p.Sound) (hset : p.Settled) :
    Spreading W jobs p ([] : List (Moment J E)) p where
  astir := hp.astir
  settled := hset
  cap := rfl
  atOnce := .start hs hp.adding
  loops _ := rfl
  crew := by
    rw [← hp.crew]
    refine List.countP_congr fun th hth => ?_
    obtain ⟨u, rfl⟩ := exists_thread_of_mem hth
    rw [hp.isAsleep_eq u]
  holders := by
    refine List.countP_eq_zero.2 fun th hth => ?_
    obtain ⟨u, rfl⟩ := exists_thread_of_mem hth
    simp [hp.holds_eq u]
  holding g hg := by cases hg
  distinct := List.nodup_nil
  sizes := by
    rw [hp.noWork]
    rfl

end Pool.AddsToSleepers

theorem Reached.spreading (hr : Reached n h p) (hp : p.AddsToSleepers t W jobs)
    (hk : Run p k q) (hu : Undisturbed p k) (hm : ∀ m ∈ k, m.Silent ∧ m.Unreporting)
    (hf : q.ledger.shuttingDown = false) :
    Spreading W jobs p k q := by
  have hmoments : ∀ m ∈ k, m.Quiet ∧ m.Silent ∧ m.Unreporting := fun m hmem =>
    ⟨hu.quiet m hmem, hm m hmem⟩
  refine hk.induct_all (C := fun k q => q.ledger.shuttingDown = false →
    Spreading W jobs p k q) hmoments
    (fun _ => hp.spreading hr.sound hu.settled) ?_ hf
  rintro k x y u m es hkx ih ⟨hquiet, hsilent, hreport⟩ hstep hf
  have hflow := hkx.taken_append_pending hr.sound
  rw [hp.noWork, List.nil_append] at hflow
  have hrunning : x.ledger.shuttingDown = false := by
    obtain ⟨o, hs, ht⟩ := turns_of_step hstep
    exact hs.shuttingDown (ht.ledger ▸ hf)
  exact (ih hrunning).step (Run.trans hr hkx) hflow hrunning hquiet hsilent hreport hstep

/-- Once all have looked, either nothing is left or everybody has a batch. -/
theorem Spreading.grabSizes_eq (hk : Spreading W jobs p k q) (hr : Reached n h q)
    (hf : q.ledger.shuttingDown = false) (hq : q.AllLooked) :
    grabSizes k = Ledger.spread p.ledger.batchSize W W (jobsAdded k).length := by
  suffices hleft :
      Ledger.spread p.ledger.batchSize W (W - (grabs k).length)
      q.ledger.pending.length = [] by
    rw [← hk.sizes, hleft, List.append_nil]
  by_cases hall : ∀ u, (q.thread u).loops = true → (q.thread u).holds = true
  · have hle : W ≤ (grabs k).length := by
      rw [← hk.crew, ← hk.holders]
      refine List.countP_mono_left fun th hth => ?_
      obtain ⟨u, rfl⟩ := exists_thread_of_mem hth
      exact hall u
    rw [Nat.sub_eq_zero_of_le hle]
    rfl
  · -- Who is in the work loop without a batch sleeps, so what waits would be answered
    -- for.
    obtain ⟨u, hu⟩ := not_forall.1 hall
    obtain ⟨hloops, hholds⟩ := Classical.not_imp.1 hu
    obtain ⟨role, stage, hd⟩ := Thread.exists_of_loops hloops
    obtain ⟨rfl, hearly⟩ := hk.astir.early u role stage hd
    have halert := hq.noneAlert u
    have hasleep : stage = .asleep := by
      unfold Thread.isAlert at halert
      unfold Thread.holds at hholds
      rw [hd] at halert hholds
      cases stage with
      | asleep => rfl
      | waking | taking => cases halert
      | executing | reporting => exact absurd rfl hholds
      | _ => cases hearly
    have hle := hr.attended hf hq.noAlarm ⟨u, hasleep ▸ hd⟩
    rw [attention_eq_zero hq.noneAlert hq.noCall, Nat.le_zero] at hle
    rw [hle, Ledger.spread_none]

/-- Jobs that are added in one go are spread evenly over the workers of a pool in which
all sleep and nothing else waits. As long as no batch is reported, no worker takes more
than one batch, and the batches are consecutive parts of what was added, in the order in
which they are taken; the rest still waits, in its order. Their sizes are those of a
sequence that depends on nothing but the number of the jobs, that of the workers, and
the batch size. Once all that were to be roused have looked for work, as many workers
have a batch as there are workers or jobs, whatever is less; no batch is smaller than
the one before, no two differ by more than one, and the first one has the share of one
in twice as many. -/
theorem Reached.spread_over_sleepers (hr : Reached n h p) (hp : p.AddsToSleepers t W jobs)
    (hW : 1 ≤ W) (hk : Run p k q) (hu : Undisturbed p k)
    (hm : ∀ m ∈ k, m.Silent ∧ m.Unreporting) (hf : q.ledger.shuttingDown = false) :
    1 ≤ p.ledger.batchSize ∧ (jobsAdded k = [] ∨ jobsAdded k = jobs) ∧
    ((grabs k).map Prod.fst).Nodup ∧
    (∀ g ∈ grabs k, (p.thread g.1).duty = .looping .worker .asleep) ∧
    ((grabs k).map Prod.snd).flatten ++ q.ledger.pending = jobsAdded k ∧
    grabSizes k <+: Ledger.spread p.ledger.batchSize W W jobs.length ∧
    (jobsAdded k = jobs → q.AllLooked →
      Ledger.Spreads p.ledger.batchSize W jobs.length (grabSizes k)) := by
  have hspread := hr.spreading hp hk hu hm hf
  have hjobs : jobs ≠ [] := ((hr.sound.threads t).of_adding hp.adding).1
  have honce : jobsAdded k = [] ∨ jobsAdded k = jobs :=
    hspread.atOnce.imp And.left And.left
  refine ⟨hr.one_le_batchSize, honce, hspread.distinct, fun g hg => ?_, ?_, ?_,
    fun hadded hlooked => ?_⟩
  · have hloops :=
      (hspread.loops g.1).symm.trans (Thread.loops_of_holds (hspread.holding g hg))
    obtain ⟨role, stage, hd⟩ := Thread.exists_of_loops hloops
    obtain ⟨rfl, rfl⟩ := hp.asleep g.1 role stage hd
    exact hd
  · have hflow := hk.taken_append_pending hr.sound
    rwa [jobsTaken_eq, hp.noWork] at hflow
  · have hfirst :
     grabSizes k <+: Ledger.spread p.ledger.batchSize W W (jobsAdded k).length :=
       ⟨_, hspread.sizes⟩
    rcases honce with hnone | hadded
    · rw [hnone, List.length_nil, Ledger.spread_none, List.prefix_nil] at hfirst
      rw [hfirst]
      exact ⟨_, rfl⟩
    · rwa [hadded] at hfirst
  · rw [hspread.grabSizes_eq (Run.trans hr hk) hf hlooked, hadded]
    exact Ledger.spreads_spread hr.one_le_batchSize hW (List.length_pos_iff.2 hjobs)

/-- A client starts two workers, which fall asleep, and is about to add eleven jobs. -/
def twoAsleep : List (Nat × Move Nat Unit) :=
  List.flatten [[(0, .request (.start 2))], onward 0 3, [(0, .spawn 1), (0, .spawn 2)],
    onward 0 4, onward 1 4,
    onward 2 4, [(0, .openRound)], onward 0 4,
    [(0, .add [1, 2, 3, 4, 5, 6, 7, 8, 9, 10, 11])]]

def twoAsleepRun : Pool Nat × List (Moment Nat Unit) := played 4 twoAsleep

/-- It adds them and rouses both workers, of which the second one is back first. -/
def elevenSpreadRun : Pool Nat × List (Moment Nat Unit) :=
  (twoAsleepRun.1.play (List.flatten [onward 0 3, onward 2 2, onward 1 2])).getD
    twoAsleepRun

theorem addsToSleepers_twoAsleep :
    twoAsleepRun.1.AddsToSleepers 0 2 [1, 2, 3, 4, 5, 6, 7, 8, 9, 10, 11] where
  adding := rfl
  noWork := rfl
  asleep := by
    have hthreads : twoAsleepRun.1.threads =
        [⟨.adding [1, 2, 3, 4, 5, 6, 7, 8, 9, 10, 11], none, some { added := 11 }⟩,
          ⟨.looping .worker .asleep, none, none⟩,
            ⟨.looping .worker .asleep, none, none⟩] := rfl
    intro u role stage hd
    rcases thread_mem_or_default twoAsleepRun.1 u with hmem | hnew
    · rw [hthreads] at hmem
      simp only [List.mem_cons, List.not_mem_nil, or_false] at hmem
      rcases hmem with hu | hu | hu <;> rw [hu] at hd <;> cases hd <;> exact ⟨rfl, rfl⟩
    · rw [hnew] at hd
      cases hd
  crew := by decide +kernel

theorem allLooked_elevenSpread : elevenSpreadRun.1.AllLooked := by
  have hthreads : elevenSpreadRun.1.threads =
      [⟨.client, none, some { added := 11 }⟩,
        ⟨.looping .worker (.executing (.start [3, 4, 5])), none, none⟩,
        ⟨.looping .worker (.executing (.start [1, 2])), none, none⟩] := rfl
  have hcalm : ∀ u, (elevenSpreadRun.1.thread u).owesCall = false ∧
      (elevenSpreadRun.1.thread u).isAlert = false := by
    intro u
    rcases thread_mem_or_default elevenSpreadRun.1 u with hmem | hnew
    · have hall : ∀ th ∈ elevenSpreadRun.1.threads, th.owesCall = false ∧
          th.isAlert = false := by
        decide +kernel
      exact hall _ hmem
    · rw [hnew]
      exact ⟨rfl, rfl⟩
  exact ⟨not_owesAlarm_of_mem (by simp [hthreads, Thread.OwesAlarm, Thread.Heralds]),
    fun u => (hcalm u).1, fun u => (hcalm u).2⟩

theorem eleven_jobs_spread :
    Reached 4 twoAsleepRun.2 twoAsleepRun.1 ∧
    Run twoAsleepRun.1 elevenSpreadRun.2 elevenSpreadRun.1 ∧
    grabs elevenSpreadRun.2 = [(2, [1, 2]), (1, [3, 4, 5])] ∧
    [1, 2] ++ [3, 4, 5] ++ elevenSpreadRun.1.ledger.pending =
      [1, 2, 3, 4, 5, 6, 7, 8, 9, 10, 11] ∧
    Ledger.Spreads 4 2 11 [2, 3] := by
  have hr : Reached 4 twoAsleepRun.2 twoAsleepRun.1 := .of_played (by decide +kernel)
  have hk : Run twoAsleepRun.1 elevenSpreadRun.2 elevenSpreadRun.1 :=
    Run.of_played (by decide +kernel) _
  have hu : Undisturbed twoAsleepRun.1 elevenSpreadRun.2 :=
    ⟨settled_of_all (by decide +kernel), by decide +kernel⟩
  have hgrabs : grabs elevenSpreadRun.2 = [(2, [1, 2]), (1, [3, 4, 5])] := by
    decide +kernel
  have hadded : jobsAdded elevenSpreadRun.2 = [1, 2, 3, 4, 5, 6, 7, 8, 9, 10, 11] := by
    decide +kernel
  obtain ⟨_, _, _, _, hsegments, _, hsizes⟩ :=
    Reached.spread_over_sleepers hr addsToSleepers_twoAsleep (by decide) hk hu
      (by decide +kernel) rfl
  have hspreads := hsizes hadded allLooked_elevenSpread
  rw [hgrabs, hadded] at hsegments
  rw [grabSizes, hgrabs] at hspreads
  exact ⟨hr, hk, hgrabs, hsegments, hspreads⟩

end CheckRounds
