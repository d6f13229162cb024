import CheckRounds.Proofs.Delivery
/-!
The verdict on a round is the conjunction of the outcomes of its jobs.

Between two drains a failure is on record somewhere from the moment it happens: in the
batch of the thread that met it, in the tally that this thread reports, in the ledger,
and at last in the verdict that the opener of the round leaves with (`Tallied`). When
the verdict is noted, no other place is left.
-/

namespace CheckRounds

open Pool

variable {J E : Type} {n t u : Nat} {h k : List (Moment J E)} {m : Move J E}
  {es : List (Event J E)} {p q : Pool J} {o : Upshot J E}

def allGood (js : List (J × Fate)) : Bool := js.all fun j => j.2.outcome

@[simp] theorem allGood_append (js ks : List (J × Fate)) :
    allGood (js ++ ks) = (allGood js && allGood ks) := by
  simp [allGood]

namespace Thread

/-- The thread has no failure on record: not in its batch, its tally or its verdict. -/
def clean (th : Thread J) : Bool :=
  match th.duty with
  | .looping _ (.executing x) => x.clean
  | .looping _ (.reporting tally) => tally.ok
  | .looping (.owner _) (.leaving v) => v
  | .completing v _ => v
  | _ => true

theorem clean_roused (th : Thread J) : th.roused.clean = th.clean :=
  apply_roused (fun th role hd => by simp [clean, hd]) th

theorem Sound.clean_of_inFlight {th : Thread J} (h : th.Sound) (hf : th.inFlight = 0)
    (hn : ¬ th.HasSlot) : th.clean = true := by
  unfold clean
  split
  · rename_i role x hd
    exact absurd rfl ((h.stage_of_inFlight hf hd).1 x)
  · rename_i role tally hd
    exact absurd rfl ((h.stage_of_inFlight hf hd).2 tally)
  · rename_i hd
    exact absurd (h.undecided hd).hasSlot hn
  · rename_i hd
    simp only [Sound, hd] at h
    exact absurd h.hasSlot hn
  · rfl

end Thread

/-- Each failure of a job that ended is on record in the ledger or with a thread, and
nothing else is. -/
def Tallied (k : List (Moment J E)) (p : Pool J) : Prop :=
  allGood (jobsEnded k) = true ↔ p.ledger.allOk = true ∧ ∀ u, (p.thread u).clean = true

/-- The thread that moves puts the failures of a step on record, and takes none off. -/
theorem Shift.clean {l : Ledger J} {s : Option Nat} {th : Thread J}
    (h : Shift t l s th m o) (hn : o.events.any Event.startsAfresh = false)
    (hreset : th.duty = .opening .ledger → l.allOk = true) :
    (o.ledger.allOk && o.thread.clean) =
      (l.allOk && th.clean && allGood (o.events.flatMap Event.endedJobs)) := by
  cases h with
  | still _ hc => simp [endedJobs_of_clerical hc, allGood]
  | @clerical m c es _ _ _ hc =>
    have hsame : (th.withCall c).clean = th.clean := rfl
    simp [endedJobs_of_clerical hc, allGood, hsame]
  | configure | flag | spawn | retell =>
    simp [Event.endedJobs, allGood, Thread.clean, Ledger.configure, Ledger.shutDown]
  | alarm =>
    have hsame : (th.roused.withCall (some (.stopping .collecting))).clean = th.clean :=
      Thread.clean_roused th
    simp [Event.endedJobs, allGood, hsame]
  | opened | answer | conclude => simp [Event.startsAfresh] at hn
  | seize _ hd => rcases hd with hd | hd <;> simp [Thread.clean, hd, allGood]
  | reset hd => simp [Thread.clean, hd, Ledger.openRound, hreset hd, allGood]
  | take hd =>
    have hstart : (Execution.start l.batch).clean = true := rfl
    simp [Thread.clean, hd, Event.endedJobs, allGood, hstart, Ledger.take]
  | drain hd => simp [Thread.clean, hd, Event.endedJobs, allGood, Ledger.closeRound]
  | work hd hx =>
    simp [Thread.clean, hd, Event.endedJobs, allGood, Execution.clean_step hx,
      Bool.and_assoc]
  | finish hd hx =>
    simp [Thread.clean, hd, Event.endedJobs, allGood, Execution.clean_of_finished hx]
  | @report role tally hd =>
    by_cases hz : l.todo - tally.executed = 0 <;>
      simp [Thread.clean, hd, Event.endedJobs, allGood, Ledger.report, hz]
  | @leave role v hd =>
    cases role <;> simp [Thread.clean, hd, allGood, afterLoop, Ledger.leave]
  | submit hd | push hd | release hd | knock hd | rouseAll hd | rouseOne hd | engage hd
  | dismiss hd | enter hd | quit hd | sleep hd | stir hd | wake hd | announce hd =>
    simp [Thread.clean, hd, Event.endedJobs, allGood, Ledger.push, Ledger.enter,
      Ledger.fallAsleep, Ledger.wakeUp]

theorem Tallied.start (hq : q.Afresh t) : Tallied ([] : List (Moment J E)) q := by
  have hclean : ∀ u, (q.thread u).clean = true := by
    intro u
    by_cases hu : u = t
    · subst hu
      rcases hq.duty with hd | ⟨unwinding, hd⟩ <;> simp [Thread.clean, hd]
    · refine (hq.sound.threads u).clean_of_inFlight (hq.blank.inFlight u) fun hslot =>
        hu ?_
      exact hq.sound.eq_of_hasSlot hq.slot hslot
  exact ⟨fun _ => ⟨hq.blank.allOk, hclean⟩, fun _ => rfl⟩

theorem Turns.not_startsAfresh (hs : Turns p u m q es) (hp : p.Sound)
    (hst : p.slot = some t) (hmark : u = t → es.any Event.startsAfresh = false) :
    es.any Event.startsAfresh = false := by
  by_cases hu : u = t
  · exact hmark hu
  · obtain ⟨o, hs, ht⟩ := hs
    refine Bool.eq_false_iff.2 fun he => hu ?_
    rw [ht.events] at he
    exact hp.eq_of_hasSlot hst (hs.of_startsAfresh he).1

theorem Tallied.turn (hk : Tallied k p) (hs : Turns p u m q es) (hp : p.Sound)
    (hn : es.any Event.startsAfresh = false) : Tallied (k ++ [⟨u, m, es⟩]) q := by
  obtain ⟨o, hs, ht⟩ := hs
  -- A round is opened on a ledger without a failure, so the reset takes none off.
  have hreset : (p.thread u).duty = .opening .ledger → p.ledger.allOk = true := by
    intro hd
    have hsu := (hp.slot u).1 (.inr (.inl hd))
    exact (hp.drained hsu (by simp [Thread.AtRest, hd])).2
  rw [ht.events] at hn
  have hstep := hs.clean hn hreset
  have hother : ∀ w, w ≠ u → (q.thread w).clean = (p.thread w).clean :=
    fun w hw => ht.same Thread.clean_roused rfl hw
  unfold Tallied at hk ⊢
  rw [jobsEnded, collect_append, collect_singleton, allGood_append, ← jobsEnded,
    ht.events, ht.ledger]
  constructor
  · intro hgood
    rw [Bool.and_eq_true] at hgood
    obtain ⟨hok, hclean⟩ := hk.1 hgood.1
    rw [hok, hclean u, hgood.2, Bool.and_self, Bool.and_self, Bool.and_eq_true] at hstep
    refine ⟨hstep.1, fun w => ?_⟩
    by_cases hw : w = u
    · rw [hw, ht.self]
      exact hstep.2
    · rw [hother w hw]
      exact hclean w
  · rintro ⟨hok, hclean⟩
    have hself := hclean u
    rw [ht.self] at hself
    rw [hok, hself, Bool.and_self, eq_comm, Bool.and_eq_true, Bool.and_eq_true] at hstep
    obtain ⟨⟨hok', hclean'⟩, hgood⟩ := hstep
    rw [Bool.and_eq_true]
    refine ⟨hk.2 ⟨hok', fun w => ?_⟩, hgood⟩
    by_cases hw : w = u
    · rw [hw]
      exact hclean'
    · rw [← hother w hw]
      exact hclean w

theorem Run.tallied_since (hv : p.Vacant) (hr : Run p h q)
    (hround : (q.thread t).round ≠ none) :
    Tallied (sinceDrain t h) q :=
  Run.since_induct begins_startsAfresh hv .start
    (fun hp hst hk ht hmark => hk.turn ht hp (ht.not_startsAfresh hp hst hmark)) hr hround

theorem Reached.tallied_since (hr : Reached n h p) (hround : (p.thread t).round ≠ none) :
    Tallied (sinceDrain t h) p :=
  Run.tallied_since (.new n) hr hround

/-! ## The verdict -/

theorem Shift.of_completed {l : Ledger J} {s : Option Nat} {th : Thread J}
    (h : Shift t l s th m o) {jobs : Nat} {v : Bool} (hv : .completed jobs v ∈ o.events) :
    (∃ why, th.duty = .completing v why) ∧ th.round ≠ none ∧
      ∀ w, .returned (.verdict w) ∈ o.events → w = v := by
  cases h with
  | still _ hc | clerical _ _ _ hc => exact absurd (hc _ hv) (by simp [Event.clerical])
  | answer hd hr =>
    simp only [List.mem_cons, Event.completed.injEq, reduceCtorEq, List.not_mem_nil,
      or_false] at hv
    obtain ⟨rfl, rfl⟩ := hv
    exact ⟨⟨_, hd⟩, by simp [hr], by simp⟩
  | conclude hd hr =>
    simp only [List.mem_singleton, Event.completed.injEq] at hv
    obtain ⟨rfl, rfl⟩ := hv
    exact ⟨⟨_, hd⟩, by simp [hr], by simp⟩
  | _ => simp at hv

theorem Tallied.verdict_eq (hk : Tallied k p) (hp : p.Sound) {v : Bool} {why : Occasion}
    (hd : (p.thread t).duty = .completing v why) : v = allGood (jobsEnded k) := by
  have hund := hp.threads t
  simp only [Thread.Sound, hd] at hund
  have hst := (hp.slot t).1 hund.hasSlot
  have hblank := hp.blank hst (by simp [Thread.AtRest, hd])
  have hself : (p.thread t).clean = v := by simp [Thread.clean, hd]
  rw [Bool.eq_iff_iff]
  constructor
  · -- The drain has reset the ledger, and no other thread has anything under way.
    intro hv
    refine hk.2 ⟨hblank.allOk, fun u => ?_⟩
    by_cases hu : u = t
    · rw [hu, hself, hv]
    · refine (hp.threads u).clean_of_inFlight (hblank.inFlight u) fun hslot => hu ?_
      exact hp.eq_of_hasSlot hst hslot
  · intro hgood
    rw [← hself]
    exact (hk.1 hgood).2 t

/-- The jobs that ended, each with its effective outcome. -/
def outcomes (h : List (Moment J E)) : List (J × Bool) :=
  (jobsEnded h).map fun j => (j.1, j.2.outcome)

theorem allGood_jobsEnded (h : List (Moment J E)) :
    allGood (jobsEnded h) = (outcomes h).all Prod.snd := by
  simp [allGood, outcomes, List.all_map, Function.comp_def]

theorem outcomes_fst (h : List (Moment J E)) :
    (outcomes h).map Prod.fst = (jobsEnded h).map Prod.fst := by
  simp [outcomes, Function.comp_def]

theorem Reached.verdict_eq (hr : Reached n (h ++ [⟨t, m, es⟩]) q) {jobs : Nat} {v : Bool}
    (hv : .completed jobs v ∈ es) : v = (outcomes (sinceDrain t h)).all Prod.snd := by
  obtain ⟨p, hp, o, hs, ht⟩ := hr.last
  rw [ht.events] at hv
  obtain ⟨⟨why, hd⟩, hround, _⟩ := hs.of_completed hv
  rw [← allGood_jobsEnded]
  exact (hp.tallied_since hround).verdict_eq hp.sound hd

theorem Reached.outcomes_perm (hr : Reached n (h ++ [⟨t, m, es⟩]) q) {jobs : Nat}
    {v : Bool} (hv : .completed jobs v ∈ es) :
    ((outcomes (sinceDrain t h)).map Prod.fst).Perm
      (jobsAdded (ofThread t (sinceDrain t h))) := by
  obtain ⟨p, hp, o, hs, ht⟩ := hr.last
  rw [ht.events] at hv
  obtain ⟨⟨why, hd⟩, hround, _⟩ := hs.of_completed hv
  have hst := (hp.sound.slot t).1 (.inl hround)
  have hblank := hp.sound.blank hst (by simp [Thread.AtRest, hd])
  have hperm := (hp.weighed_since begins_startsAfresh hround).perm_ended hblank
  rw [outcomes_fst, sinceDrain, hp.addedJobs_since begins_startsAfresh hround]
  exact hperm

/-- The verdict on a round is the conjunction of the effective outcomes of the jobs that
its opener added since the last drain, and of nothing else; it does not depend on the
workers, the size of the batches, or the schedule. -/
theorem Reached.verdict_eq_conjunction (hr : Reached n (h ++ [⟨t, m, es⟩]) q) {jobs : Nat}
    {v : Bool} (hv : .completed jobs v ∈ es) :
    v = (outcomes (sinceDrain t h)).all Prod.snd ∧
    ((outcomes (sinceDrain t h)).map Prod.fst).Perm
      (jobsAdded (ofThread t (sinceDrain t h))) ∧
    (jobsAdded (ofThread t (sinceDrain t h)) = [] → v = true) ∧
    (∀ ok : J → Bool, (∀ x ∈ outcomes (sinceDrain t h), x.2 = ok x.1) →
      v = (jobsAdded (ofThread t (sinceDrain t h))).all ok) ∧
    (∀ w, .returned (.verdict w) ∈ es → w = v) ∧
    ∀ n' h' t' m' es' q' jobs' v', Reached n' (h' ++ [⟨t', m', es'⟩]) q' →
      .completed jobs' v' ∈ (es' : List (Event J E)) →
      (outcomes (sinceDrain t' h')).Perm (outcomes (sinceDrain t h)) → v' = v := by
  have hverdict := hr.verdict_eq hv
  have hperm := hr.outcomes_perm hv
  refine ⟨hverdict, hperm, ?_, ?_, ?_, ?_⟩
  · intro hnone
    rw [hnone, List.perm_nil, List.map_eq_nil_iff] at hperm
    rw [hverdict, hperm]
    rfl
  · intro ok hok
    rw [← hperm.all_eq, List.all_map, hverdict, Bool.eq_iff_iff, List.all_eq_true,
      List.all_eq_true]
    refine forall₂_congr ?_
    intro x hx
    rw [Function.comp_apply, hok x hx]
  · obtain ⟨p, hp, o, hs, ht⟩ := hr.last
    rw [ht.events] at hv ⊢
    exact (hs.of_completed hv).2.2
  · intro n' h' t' m' es' q' jobs' v' hr' hv' hsame
    rw [hr'.verdict_eq hv', hverdict]
    exact hsame.all_eq

theorem errand_fails : ∃ q, Reached 1 (errandRun.2 ++
      [⟨0, .advance, [.completed 2 false, .returned (.verdict false)]⟩]) q ∧
    outcomes (sinceDrain 0 errandRun.2) = [(5, false), (6, true)] ∧
    false = (outcomes (sinceDrain 0 errandRun.2)).all Prod.snd ∧
    ((outcomes (sinceDrain 0 errandRun.2)).map Prod.fst).Perm [5, 6] := by
  have hr : Reached 1 (errandRun.2 ++
      [⟨0, .advance, [.completed 2 false, .returned (.verdict false)]⟩]) _ :=
    Run.snoc reached_errandRun rfl
  have hadded : jobsAdded (ofThread 0 (sinceDrain 0 errandRun.2)) = [5, 6] := rfl
  have hmem : (.completed 2 false : Event Nat Unit) ∈
      [.completed 2 false, .returned (.verdict false)] := by simp
  obtain ⟨hverdict, hperm, _⟩ := Reached.verdict_eq_conjunction hr hmem
  rw [hadded] at hperm
  exact ⟨_, hr, rfl, hverdict, hperm⟩

end CheckRounds
