import CheckRounds.Proofs.Accounting
import CheckRounds.Proofs.Pool.Concluding
import CheckRounds.Proofs.Pool.SingleAdd
/-!
To stop the workers abandons nothing.

From the step on that sets the flag only the opener of a round takes batches, in the
wait for its round or at its close. A worker leaves when all that it took was carried
out and reported, and a stop returns when the workers that it found have left.

That is what a run may do. What a fair course comes to, if the code of the jobs
terminates, is shown in phases: the stop that set the flag gives the alarm
(`Course.Fair.alarms`), the workers leave one after another, none of them asleep
(`Course.Fair.deserted`), and the opener, alone then, carries out what waits and comes
to its verdict (`Course.Fair.concluded`).
-/

namespace CheckRounds

open Pool

variable {J E : Type} {n t u s i j : Nat} {h k : List (Moment J E)} {m : Move J E}
  {es : List (Event J E)} {p q : Pool J} {o : Upshot J E} {why : Occasion}
  {c : Course J E}

/-! ## After the flag -/

/-- What is left to the opener of the round from state `q` on, in which the flag is set:
it alone takes batches, while its round has not been drained. The jobs that waited then,
and those that are added later, are taken in their order, and each is carried out by the
thread that took it; all of them have ended where a verdict is given or a round is
closed. -/
structure LeftToOpener (q : Pool J) (k : List (Moment J E)) (p : Pool J) : Prop where
  openerTakes : ∀ k₁ u m es k₂ role batch, k = k₁ ++ ⟨u, m, es⟩ :: k₂ →
    .took role batch ∈ es → ∃ r why, Run q k₁ r ∧ r.slot = some u ∧ role = .owner why ∧
      (r.thread u).duty = .looping (.owner why) .taking
  inOrder : jobsTaken k ++ p.ledger.pending = q.ledger.pending ++ jobsAdded k
  carriedOut : ∀ u, (q.thread u).unended ++ jobsTaken (ofThread u k) =
    (jobsEnded (ofThread u k)).map Prod.fst ++ (p.thread u).unended
  atTheEnd : ∀ k₁ t m es, k = k₁ ++ [⟨t, m, es⟩] → (∃ v, .returned (.verdict v) ∈ es) ∨
    .closed ∈ es → p.ledger.pending = [] ∧ ∀ u, (p.thread u).unended = []

theorem Shift.of_flagged {l : Ledger J} {s : Option Nat} {th : Thread J}
    (h : Shift t l s th m o) (he : .flagged ∈ o.events) :
    o.ledger.shuttingDown = true := by
  cases h with
  | still _ hc | clerical _ _ _ hc => exact absurd (hc _ he) (by simp [Event.clerical])
  | flag => rfl
  | _ => simp at he

theorem Run.shuttingDown (hr : Run p k q) (hf : p.ledger.shuttingDown = true) :
    q.ledger.shuttingDown = true := by
  induction hr with
  | nil => exact hf
  | snoc _ last ih => exact (turns_of_step last).shuttingDown ih

theorem Reached.openerTakes (hr : Reached n h q) (hf : q.ledger.shuttingDown = true)
    {k₁ k₂ : List (Moment J E)} {role : Role} {batch : List J}
    (hk : Run q (k₁ ++ ⟨u, m, es⟩ :: k₂) p) (he : .took role batch ∈ es) :
    ∃ r why, Run q k₁ r ∧ r.slot = some u ∧ role = .owner why ∧
      (r.thread u).duty = .looping (.owner why) .taking := by
  rw [show k₁ ++ ⟨u, m, es⟩ :: k₂ = (k₁ ++ [⟨u, m, es⟩]) ++ k₂ by simp] at hk
  obtain ⟨r', hr', _⟩ := Run.of_append hk
  obtain ⟨r, hrun, hstep⟩ := Run.of_concat hr'
  obtain ⟨o, hs, ht⟩ := turns_of_step hstep
  rw [ht.events] at he
  obtain ⟨hd, hstays, _⟩ := hs.of_took he
  have hsound := hrun.sound hr.sound
  cases role with
  | worker => exact absurd (hstays rfl) (by simp [hrun.shuttingDown hf])
  | owner why =>
    exact ⟨r, why, hrun,
      (hsound.slot u).1 ((hsound.threads u).undecided hd).hasSlot, rfl, hd⟩

/-- What holds of all runs from a new pool holds, by subtraction, of the part that
follows the flag. -/
theorem Reached.leftToOpener (hr : Reached n h q) (hf : q.ledger.shuttingDown = true)
    (hk : Run q k p) :
    LeftToOpener q k p where
  openerTakes := by
    rintro k₁ u m es k₂ role batch rfl he
    exact hr.openerTakes hf hk he
  inOrder := by
    have hall := Reached.taken_append_pending (Run.trans hr hk)
    have hbefore := hr.taken_append_pending
    simp only [jobsTaken, jobsAdded, collect_append] at hall hbefore ⊢
    rw [← hbefore, List.append_assoc, List.append_assoc] at hall
    exact List.append_cancel_left hall
  carriedOut u := by
    have hall := (Reached.carries (Run.trans hr hk) u).ended
    have hbefore := (hr.carries u).ended
    simp only [jobsTaken, jobsEnded, ofThread_append, collect_append,
      List.map_append] at hall hbefore ⊢
    rw [hbefore, List.append_assoc, List.append_assoc] at hall
    exact List.append_cancel_left hall
  atTheEnd := by
    rintro k₁ t m es rfl he
    obtain ⟨r, hrun, hstep⟩ := Run.of_concat hk
    obtain ⟨_, _, hblank⟩ :=
      (turns_of_step hstep).blank_of_return (hrun.sound hr.sound) he
    exact ⟨hblank.pending, fun u => Thread.unended_of_inFlight (hblank.inFlight u)⟩

/-! ## Workers that have left -/

/-- All that `u` took is done: each batch was reported in full, one after another, and
each of their jobs was called and released. -/
structure Cleared (u : Nat) (h : List (Moment J E)) : Prop where
  reported : (batchesOf u h).map List.length = (talliesOf u h).map Tally.executed
  ended : jobsTaken (ofThread u h) = (jobsEnded (ofThread u h)).map Prod.fst

theorem Reached.cleared (hr : Reached n h p) (hd : (p.thread u).inFlight = 0) :
    Cleared u h where
  reported := by
    rw [hr.map_length_batchesOf u, Thread.load_eq_nil_of_inFlight (hr.sound.threads u) hd,
      List.append_nil]
  ended := by
    rw [(hr.carries u).ended, Thread.unended_of_inFlight hd, List.append_nil]

theorem Reached.cleared_of_left (hr : Reached n h p)
    (hd : (p.thread u).duty = .finished ∨
      ∃ v, (p.thread u).duty = .looping .worker (.leaving v)) :
    Cleared u h := by
  refine hr.cleared ?_
  rcases hd with hd | ⟨v, hd⟩ <;> simp [Thread.inFlight, hd]

/-! ## The alarm -/

theorem Shift.of_alarmed {l : Ledger J} {s : Option Nat} {th : Thread J}
    (h : Shift t l s th m o) (he : .alarmed ∈ o.events) :
    th.call = some (.stopping .rousing) := by
  cases h with
  | still _ hc | clerical _ _ _ hc => exact absurd (hc _ he) (by simp [Event.clerical])
  | alarm hc => exact hc
  | _ => simp at he

theorem Reached.alarmed (hr : Reached n h p) (he : ∃ t, (t, .alarmed) ∈ events h) :
    p.Alarmed := by
  induction hr with
  | nil => simp at he
  | @snoc q r h t m es before last ih =>
    have hturns := turns_of_step last
    obtain ⟨v, he⟩ := he
    rcases mem_events_concat.1 he with he | ⟨_, he⟩
    · exact (ih ⟨v, he⟩).turns hturns
    · obtain ⟨o, hs, ht⟩ := hturns
      have hcall := hs.of_alarmed (ht.events ▸ he)
      exact (turns_of_step last).alarmed he (Reached.orderly before |>.calls t _ hcall)

/-- When a stop returns the alarm was given. -/
theorem Reached.alarmed_of_returned (hr : Reached n h p) {stage : StopStage} {r : Reply}
    (hc : (p.thread t).call = some (.stopping stage)) (hstep : p.step t m = some (q, es))
    (he : .returned r ∈ es) : q.Alarmed := by
  have hfits := hr.orderly.calls t _ hc
  have hturns := turns_of_step hstep
  cases callStep_of_step hc hstep with
  | collectNone => exact Alarmed.turns hfits hturns
  | endStop => exact hfits.1.turns hturns
  | _ => simp at he

/-! ## The stop returns -/

/-- Each call returns, a stop as well: the workers that it waits for were roused by its
alarm. -/
theorem Course.Fair.returns (hf : c.Fair) (hr : Reached n h (c.state 0))
    (hjobs : ∀ u, c.JobsEnd u) (hstop : ∀ u, c.NeverStops u) (t i : Nat) :
    ∃ j, i ≤ j ∧ ((c.state j).thread t).call = none := by
  refine hf.call_ends hr t i fun k call w _ hcall hw => ?_
  have hfits := (c.orderly hr k).calls t call hcall
  unfold Call.waitsFor at hw
  split at hw
  · exact hf.worker_finishes hr (hjobs w) (hstop w) hfits.1 (hfits.2 w hw)
  · cases hw

/-! ## The alarm comes -/

/-- The alarm was given after the flag, or `s` is about to give it. -/
def Pool.AlarmDue (s : Nat) (p : Pool J) : Prop :=
  p.Alarmed ∨ p.ledger.shuttingDown = true ∧ (p.thread s).call = some (.stopping .rousing)

theorem Pool.AlarmDue.step (h : p.AlarmDue s) (hstep : p.step t m = some (q, es)) :
    q.AlarmDue s := by
  have hturns := turns_of_step hstep
  rcases h with halarmed | ⟨hf, hc⟩
  · exact .inl (halarmed.turns hturns)
  · by_cases hs : s = t
    · subst hs
      cases callStep_of_step hc hstep with
      | lockLedger need | lockRoster need => cases need
      | alarm => exact .inl (hturns.alarmed List.mem_cons_self hf)
    · obtain ⟨o, _, ht⟩ := hturns
      refine .inr ⟨(turns_of_step hstep).shuttingDown hf, ?_⟩
      rw [ht.same Thread.call_roused rfl hs, hc]

/-- Who sets the flag is about to give the alarm. -/
theorem Shift.rousing_of_flag {l : Ledger J} {s : Option Nat} {th : Thread J}
    (h : Shift t l s th m o) (hf : l.shuttingDown = false)
    (hq : o.ledger.shuttingDown = true) :
    o.thread.call = some (.stopping .rousing) := by
  cases h with
  | flag => rfl
  | _ => exact absurd (hf.symm.trans hq) (by simp)

theorem Reached.alarmDue (hr : Reached n h p) (hf : p.ledger.shuttingDown = true) :
    ∃ s, p.AlarmDue s := by
  induction hr with
  | nil => cases hf
  | @snoc p q h t m es before last ih =>
    cases hbefore : p.ledger.shuttingDown with
    | true =>
      obtain ⟨s, hs⟩ := ih hbefore
      exact ⟨s, hs.step last⟩
    | false =>
      obtain ⟨o, hs, ht⟩ := turns_of_step last
      refine ⟨t, .inr ⟨hf, ?_⟩⟩
      rw [ht.self]
      exact hs.rousing_of_flag hbefore (ht.ledger ▸ hf)

namespace Course

/-- After the flag the alarm is given. -/
theorem Fair.alarms (hf : c.Fair) (hr : Reached n h (c.state 0))
    (hjobs : ∀ u, c.JobsEnd u) (hstop : ∀ u, c.NeverStops u)
    (hflag : (c.state i).ledger.shuttingDown = true) :
    ∃ j, i ≤ j ∧ (c.state j).Alarmed := by
  obtain ⟨s, hdue⟩ := Reached.alarmDue (Run.trans hr (c.run_history i)) hflag
  obtain ⟨j, hij, hreturned⟩ := hf.returns hr hjobs hstop s i
  have hj : (c.state j).AlarmDue s :=
    stable (P := AlarmDue s) (fun hp hstep => hp.step hstep) hij hdue
  refine ⟨j, hij, hj.resolve_right ?_⟩
  rintro ⟨_, hc⟩
  cases hreturned.symm.trans hc

/-! ## The last worker leaves -/

/-- No thread becomes a worker after the flag. -/
theorem not_worker_of_le (hr : Reached n h (c.state 0))
    (hflag : (c.state i).ledger.shuttingDown = true) (hij : i ≤ j)
    (hi : ∀ stage, ((c.state i).thread u).duty ≠ .looping .worker stage) :
    ∀ stage, ((c.state j).thread u).duty ≠ .looping .worker stage := by
  induction j, hij using Nat.le_induction with
  | base => exact hi
  | succ j hij ih =>
    rcases c.next_cases j with ⟨_, hsame⟩ | ⟨t, m, es, _, hstep⟩
    · rwa [hsame]
    · intro stage hd
      have hj : (c.state j).ledger.shuttingDown = true :=
        stable (P := fun p => p.ledger.shuttingDown = true)
          (fun hp hstep => (turns_of_step hstep).shuttingDown hp) hij hflag
      have hlisted := Reached.listed (Run.trans hr (c.run_history j))
      rcases (turns_of_step hstep).worker_before hd with ⟨stage', hd'⟩ | hspawned
      · exact ih stage' hd'
      · rw [hlisted.none_spawned hj hstep] at hspawned
        cases hspawned

/-- After the alarm all workers leave. -/
theorem Fair.deserted (hf : c.Fair) (hr : Reached n h (c.state 0))
    (hjobs : ∀ u, c.JobsEnd u) (hstop : ∀ u, c.NeverStops u) (ha : (c.state i).Alarmed) :
    ∃ j, i ≤ j ∧ ∀ k, j ≤ k → (c.state k).Unstaffed := by
  -- Of the first threads, one more at a time has left for good, or never was a worker.
  have below (N : Nat) : ∃ j, i ≤ j ∧ ∀ u < N, ∀ stage,
      ((c.state j).thread u).duty ≠ .looping .worker stage := by
    induction N with
    | zero => exact ⟨i, Nat.le_refl i, fun u hu => absurd hu (Nat.not_lt_zero u)⟩
    | succ N ih =>
      obtain ⟨j, hij, hj⟩ := ih
      have haj := alarmed_of_le hij ha
      by_cases hw : ((c.state j).thread N).IsWorker
      · obtain ⟨k, hjk, hd⟩ := hf.worker_finishes hr (hjobs N) (hstop N) haj hw
        refine ⟨k, by omega, fun u hu => ?_⟩
        rcases Nat.lt_succ_iff_lt_or_eq.1 hu with hu | rfl
        · exact not_worker_of_le hr haj.flag hjk (hj u hu)
        · intro stage hd'
          cases hd.symm.trans hd'
      · refine ⟨j, hij, fun u hu => ?_⟩
        rcases Nat.lt_succ_iff_lt_or_eq.1 hu with hu | rfl
        · exact hj u hu
        · exact fun stage hd => hw (.inl ⟨stage, hd⟩)
  obtain ⟨j, hij, hj⟩ := below (c.state i).threads.length
  refine ⟨j, hij, fun k hjk u => ?_⟩
  by_cases hu : u < (c.state i).threads.length
  · exact not_worker_of_le hr (alarmed_of_le hij ha).flag hjk (hj u hu)
  · have hnew : (c.state i).thread u = {} := by simp [thread, hu]
    refine not_worker_of_le hr ha.flag (by omega) fun stage hd => ?_
    rw [hnew] at hd
    cases hd

end Course

/-! ## The opener comes to its verdict -/

/-- What the opener `t` of a round does from state `q` on, in which the flag is set,
until its wait or its close is over, in state `p`. It carries out what it had left of
its batch and all that waited, in their order, and nothing was added; then no thread has
anything left. -/
structure Concluded (t : Nat) (why : Occasion) (q : Pool J) (k : List (Moment J E))
    (p : Pool J) : Prop where
  ends : ∃ k₁ m es, k = k₁ ++ [⟨t, m, es⟩] ∧ why.Over es
  client : (p.thread t).duty = .client
  noneAdded : jobsAdded k = []
  carriedOut : (jobsEnded (ofThread t k)).map Prod.fst =
    (q.thread t).unended ++ q.ledger.pending
  noWork : p.ledger.pending = []
  noBatch : ∀ u, (p.thread u).unended = []

/-- Nobody else takes jobs after the flag while the opener waits for its round or closes
it. -/
theorem Pool.Sound.none_taken (hp : p.Sound) (hf : p.ledger.shuttingDown = true)
    (hc : (p.thread t).Concludes why) (hstep : p.step u m = some (q, es)) (hu : u ≠ t) :
    es.flatMap Event.takenJobs = [] := by
  refine List.flatMap_eq_nil_iff.2 fun e he => ?_
  cases e with
  | took role batch =>
    obtain ⟨o, hs, ht⟩ := turns_of_step hstep
    obtain ⟨hd, hstays, _⟩ := hs.of_took (ht.events ▸ he)
    cases role with
    | worker => exact absurd (hstays rfl) (by simp [hf])
    | owner why =>
      have hslot := (hp.slot t).1 (hc.hasSlot (hp.threads t))
      exact absurd (hp.eq_of_hasSlot hslot ((hp.threads u).undecided hd).hasSlot) hu
  | _ => rfl

namespace Course

/-- Meanwhile nobody adds jobs, and the opener takes what is taken. -/
theorem taken_of_concludes (hr : Reached n h (c.state 0))
    (hflag : (c.state i).ledger.shuttingDown = true) (hij : i ≤ j)
    (hstays : ∀ k, i ≤ k → k < j → ((c.state k).thread t).Concludes why) :
    ∃ k, c.history j = c.history i ++ k ∧ Run (c.state i) k (c.state j) ∧
      jobsAdded k = [] ∧ jobsTaken (ofThread t k) = jobsTaken k := by
  induction j, hij using Nat.le_induction with
  | base => exact ⟨[], (List.append_nil _).symm, .nil _, rfl, rfl⟩
  | succ j hij ih =>
    obtain ⟨k, hk, hrun, hadded, htaken⟩ := ih fun l hil hlj => hstays l hil (by omega)
    rcases c.next_cases j with ⟨hact, hsame⟩ | ⟨u, m, es, hact, hstep⟩
    · refine ⟨k, ?_, hsame ▸ hrun, hadded, htaken⟩
      rw [history, record, hact, hk, List.append_nil]
    · have hsound := c.sound hr j
      have hj := hstays j hij (Nat.lt_succ_self j)
      have hnone : collect Event.addedJobs [⟨u, m, es⟩] = [] := by
        rw [collect_singleton, hsound.none_added hj hstep]
      have hown : collect Event.takenJobs (ofThread t [⟨u, m, es⟩]) =
          collect Event.takenJobs [⟨u, m, es⟩] := by
        rw [ofThread_singleton]
        split
        · rfl
        · rename_i hu
          rw [collect_singleton,
            hsound.none_taken (hrun.shuttingDown hflag) hj hstep hu]
          rfl
      refine ⟨k ++ [⟨u, m, es⟩], ?_, .snoc hrun hstep, ?_, ?_⟩
      · rw [history_of_step hact hstep, hk, List.append_assoc]
      · rw [jobsAdded, collect_append, ← jobsAdded, hadded, hnone]
        rfl
      · simp only [jobsTaken, ofThread_append, collect_append] at htaken ⊢
        rw [htaken, hown]

/-- After the flag, a wait or a close comes to its end: the opener carries out all that
is left. -/
theorem Fair.concluded (hf : c.Fair) (hr : Reached n h (c.state 0))
    (hjobs : ∀ u, c.JobsEnd u) (hstop : ∀ u, c.NeverStops u) (hcode : c.CodeEnds t)
    (hflag : (c.state i).ledger.shuttingDown = true)
    (hi : ((c.state i).thread t).Concludes why) :
    ∃ j k, i ≤ j ∧ c.history j = c.history i ++ k ∧
      Concluded t why (c.state i) k (c.state j) := by
  obtain ⟨a, hia, halarmed⟩ := hf.alarms hr hjobs hstop hflag
  obtain ⟨b, hab, halone⟩ := hf.deserted hr hjobs hstop halarmed
  have hends : ∃ j, b ≤ j ∧ ¬ ((c.state j).thread t).Concludes why :=
    hf.concludes hr hcode halone fun j _ => hf.returns hr hjobs hstop t j
  obtain ⟨z, hbz, hz⟩ := hends
  have hfirst := c.stays_or_leaves_first (R := fun p => (p.thread t).Concludes why) hi
  obtain ⟨j, hij, hsofar, hleft, u, m, es, hact, hstep⟩ :=
    hfirst.resolve_left fun hall => hz (hall z (by omega))
  obtain ⟨rfl, hover, hclient⟩ :=
    ((turns_of_step hstep).concludes (hsofar j hij (Nat.le_refl j))).resolve_left hleft
  obtain ⟨k, hk, hrun, hadded, htaken⟩ :=
    taken_of_concludes hr hflag (show i ≤ j + 1 by omega)
      fun l hil hlj => hsofar l hil (by omega)
  obtain ⟨k₁, hk₁⟩ := c.history_mono hij
  have hlast : k = k₁ ++ [⟨u, m, es⟩] := by
    rw [history_of_step hact hstep, ← hk₁, List.append_assoc] at hk
    exact (List.append_cancel_left hk).symm
  have hleftTo := Reached.leftToOpener (Run.trans hr (c.run_history i)) hflag hrun
  obtain ⟨hnoWork, hnoBatch⟩ := hleftTo.atTheEnd k₁ u m es hlast <| by
    cases why with
    | waiting => exact .inl hover
    | closing => exact .inr hover
  refine ⟨j + 1, k, by omega, hk, ⟨k₁, m, es, hlast, hover⟩, hclient, hadded, ?_, hnoWork,
    hnoBatch⟩
  have horder := hleftTo.inOrder
  have hcarried := hleftTo.carriedOut u
  rw [hnoWork, hadded, List.append_nil, List.append_nil] at horder
  rw [hnoBatch u, List.append_nil, htaken, horder] at hcarried
  exact hcarried.symm

end Course

/-! ## What a client may ask for -/

theorem Pool.step_stop (hliberty : (p.thread t).atLiberty = true)
    (inUse : p.retired = false) :
    ∃ q, p.step t (.request .stop : Move J E) = some (q, []) ∧
      (q.thread t).call = some (.stopping .roster) := by
  have hc : (p.thread t).call = none := Thread.call_of_atLiberty hliberty
  exact ⟨_, (SoloStep.begins .stop hliberty inUse (by simp)).step hc, call_setCall _ _ _⟩

/-- What the pool lets client `t` do, with the flag or without it: ask for a round, and
add jobs to the one that it has, wait for it and close it. -/
structure Pool.Admits (E : Type) (t : Nat) (p : Pool J) : Prop where
  opens : p.retired = false → ∃ q, p.step t (.openRound : Move J E) = some (q, []) ∧
    (q.thread t).duty = .opening .slot
  adds : ∀ jobs, jobs ≠ [] → (p.thread t).round ≠ none →
    ∃ q, p.step t (.add jobs : Move J E) = some (q, []) ∧ (q.thread t).duty = .adding jobs
  waits : (p.thread t).Undecided →
    ∃ q, p.step t (.wait : Move J E) = some (q, []) ∧ (q.thread t).Concludes .waiting
  retells : ∀ r v, (p.thread t).round = some r → r.verdict = some v →
    p.step t (.wait : Move J E) = some (p, [.returned (.verdict v)])
  closes : ∀ u, (p.thread t).round ≠ none →
    ∃ q, p.step t (.close u : Move J E) = some (q, []) ∧
    (q.thread t).Concludes (.closing u)

theorem Pool.admits_client (hclient : (p.thread t).isClient = true) : p.Admits E t := by
  obtain ⟨hc, hd⟩ := Thread.of_isClient hclient
  constructor
  case opens => exact fun inUse =>
    ⟨_, (DutyStep.knock inUse).step hc hd, duty_setDuty _ _ _⟩
  case adds =>
    intro jobs some_job hround
    obtain ⟨r, hround⟩ := Option.ne_none_iff_exists'.1 hround
    exact ⟨_, (DutyStep.submit hround some_job).step hc hd, duty_setDuty _ _ _⟩
  case waits =>
    rintro ⟨r, hround, hv⟩
    exact ⟨_, (DutyStep.engage hround hv).step hc hd, .of_looping (duty_setDuty _ _ _)⟩
  case retells => exact fun r v hround hv => (DutyStep.retell hround hv).step hc hd
  case closes =>
    intro u hround
    obtain ⟨r, hround⟩ := Option.ne_none_iff_exists'.1 hround
    cases hv : r.verdict with
    | none =>
      exact ⟨_, (DutyStep.engageToClose hround hv).step hc hd,
        .of_looping (duty_setDuty _ _ _)⟩
    | some v =>
      refine ⟨_, (DutyStep.dismiss hround hv).step hc hd, ?_⟩
      rw [Thread.Concludes, duty_setDuty]

/-- To stop the workers abandons nothing, at whatever moment it happens.

After the flag only the opener of a round takes batches, and it carries out all that
waits or is added later; a worker that leaves has carried out and reported all that it
took, and so have all workers that a stop has found when it returns; after the alarm no
worker sleeps, and a stop that returns has given it. A client or a job may stop the
workers at any time, and a client may go on to open rounds, to add jobs, to wait and to
close.

In each fair course in which the code of the jobs on workers terminates, and does not
stop the workers itself, each stop returns, each worker finishes after the alarm, a round
that is asked for is opened if the slot becomes free again and again, and an addition
gets into the ledger. If the code of the jobs terminates that the opener runs, its wait
comes to the verdict, and its close to the end, and by then it has carried out all jobs
that were left. -/
theorem Reached.stop_abandons_nothing (hr : Reached n h p) :
    (∀ k s m es k', h = k ++ ⟨s, m, es⟩ :: k' → .flagged ∈ es →
      ∃ q, Reached n (k ++ [⟨s, m, es⟩]) q ∧ Run q k' p ∧ LeftToOpener q k' p) ∧
    (∀ u, (p.thread u).duty = .finished ∨
        (∃ v, (p.thread u).duty = .looping .worker (.leaving v)) →
      Cleared u h) ∧
    (∀ k s m es k' ws, h = k ++ ⟨s, m, es⟩ :: k' → .collected ws ∈ es →
      (∃ r, (s, .returned r) ∈ events (⟨s, m, es⟩ :: k')) →
      ∀ w ∈ ws, (p.thread w).duty = .finished ∧ Cleared w h) ∧
    ((∃ s, (s, .alarmed) ∈ events h) →
      ∀ u, (p.thread u).duty ≠ .looping .worker .asleep) ∧
    (∀ t stage m q es r, (p.thread t).call = some (.stopping stage) →
      p.step t m = some (q, es) → Event.returned r ∈ (es : List (Event J E)) →
      q.Alarmed) ∧
    (∀ t, (p.thread t).atLiberty = true → p.retired = false →
      ∃ q, p.step t (.request .stop : Move J E) = some (q, []) ∧
        (q.thread t).call = some (.stopping .roster)) ∧
    (∀ t, (p.thread t).isClient = true → p.Admits E t) ∧
    ∀ c : Course J E, c.state 0 = p → c.Fair → (∀ u, c.JobsEnd u) →
      (∀ u, c.NeverStops u) →
      (∀ s i stage, ((c.state i).thread s).call = some (.stopping stage) →
        ∃ j, i ≤ j ∧ ((c.state j).thread s).call = none) ∧
      (∀ u i, (c.state i).Alarmed → ((c.state i).thread u).IsWorker →
        ∃ j, i ≤ j ∧ ((c.state j).thread u).duty = .finished) ∧
      (∀ t i stage, ((c.state i).thread t).duty = .opening stage →
        (stage = .slot → ∀ j, i ≤ j → ∃ k, j ≤ k ∧ (c.state k).slot = none) →
        ∃ j, i ≤ j ∧ ((c.state j).thread t).duty = .client ∧
          ((c.state j).thread t).round = some {}) ∧
      (∀ t i jobs, ((c.state i).thread t).duty = .adding jobs →
        ∃ j k, i ≤ j ∧ ((c.state j).thread t).duty = .client ∧
          c.history j = c.history i ++ k ∧ (t, .added jobs) ∈ events k) ∧
      ∀ t i why, (c.state i).ledger.shuttingDown = true → c.CodeEnds t →
        ((c.state i).thread t).Concludes why →
        ∃ j k, i ≤ j ∧ c.history j = c.history i ++ k ∧
          Concluded t why (c.state i) k (c.state j) := by
  refine ⟨?_, fun u hd => hr.cleared_of_left hd, ?_, fun he u => (hr.alarmed he).awake u,
    fun t stage m q es r hc hstep he => hr.alarmed_of_returned hc hstep he,
    fun t hliberty inUse => step_stop hliberty inUse,
    fun t hclient => admits_client hclient, ?_⟩
  · rintro k s m es k' rfl he
    rw [show k ++ ⟨s, m, es⟩ :: k' = (k ++ [⟨s, m, es⟩]) ++ k' by simp] at hr
    obtain ⟨q, hq, hrest⟩ := Run.of_append hr
    obtain ⟨_, _, o, hs, ht⟩ := Reached.last hq
    have hflag : q.ledger.shuttingDown = true := by
      rw [ht.ledger]
      exact hs.of_flagged (ht.events ▸ he)
    exact ⟨q, hq, hrest, Reached.leftToOpener hq hflag hrest⟩
  · rintro k s m es k' ws rfl he hret w hw
    have hd := hr.finished_of_returned he hret w hw
    exact ⟨hd, hr.cleared_of_left (.inl hd)⟩
  · rintro c rfl hf hjobs hstop
    refine ⟨fun s i _ _ => hf.returns hr hjobs hstop s i,
      fun u i ha hw => hf.worker_finishes hr (hjobs u) (hstop u) ha hw,
      fun t i stage hd hfree => hf.opens hr hd hfree,
      fun t i jobs hd => hf.add_returns hr hd,
      fun t i why hflag hcode hi => hf.concluded hr hjobs hstop hcode hflag hi⟩

/-! ## A stop in the middle of a round -/

/-- A client starts a worker and adds two jobs, and stops the workers while the worker
runs the first one. -/
def earlyStop : List (Nat × Move Nat Unit) :=
  List.flatten [[(0, .request (.start 1))], onward 0 3, [(0, .spawn 1)], onward 0 4,
    [(0, .openRound)], onward 0 4, [(0, .add [5, 6])], onward 0 3, onward 1 4,
    [(1, .work .proceed)], [(0, .request .stop)], onward 0 5]

/-- The worker carries out its job and leaves, the stop returns, and the client waits
for its round. -/
def aftermath : List (Nat × Move Nat Unit) :=
  List.flatten [[(1, .work (.conclude (.ok true))), (1, .work (.discard none))],
    onward 1 7, onward 0 2, [(0, .wait)], onward 0 4, carryOut 0 true, onward 0 9]

def earlyStopRun : Pool Nat × List (Moment Nat Unit) := played 1 earlyStop

def aftermathCourse : Course Nat Unit :=
  .playing earlyStopRun.1 aftermath (by decide +kernel)

theorem act_aftermath {i : Nat} (hi : 28 ≤ i) : aftermathCourse.act i = none :=
  List.getElem?_eq_none hi

theorem fair_aftermath : aftermathCourse.Fair :=
  Course.fair_of_rest (fun _ => act_aftermath) (not_canGoOn_of_all (by decide +kernel))

/-- Worker 1 is in its job for the first two moves, and no job runs on a worker after
that. -/
theorem runsJob_aftermath {i u : Nat}
    (h : ((aftermathCourse.state i).thread u).runsJob = true) :
    i < 2 ∧ u = 1 ∧ ((aftermathCourse.state i).thread u).call = none := by
  have hplayed : ∀ k < 29, (aftermathCourse.state k).threads.length = 2 ∧ ∀ v < 2,
      ((aftermathCourse.state k).thread v).runsJob = true →
        k < 2 ∧ v = 1 ∧ ((aftermathCourse.state k).thread v).call = none := by
          decide +kernel
  have known {k : Nat} (hk : k < 29)
      (h : ((aftermathCourse.state k).thread u).runsJob = true) :
      k < 2 ∧ u = 1 ∧ ((aftermathCourse.state k).thread u).call = none := by
    obtain ⟨hlength, hruns⟩ := hplayed k hk
    by_cases hu : u < 2
    · exact hruns u hu h
    · have hnew : (aftermathCourse.state k).thread u = {} := by simp [thread, hlength, hu]
      rw [hnew] at h
      cases h
  by_cases hi : i < 29
  · exact known hi h
  · rw [Course.state_of_rest (fun _ => act_aftermath) (show 28 ≤ i by omega)] at h
    have hlate := (known (by decide) h).1
    omega

theorem jobsEnd_aftermath (u : Nat) : aftermathCourse.JobsEnd u where
  goOn i h hcall := by
    obtain ⟨hi, rfl, _⟩ := runsJob_aftermath h
    have hmoves : aftermathCourse.Moves 1 i := by
      have hor : i = 0 ∨ i = 1 := by omega
      rcases hor with rfl | rfl <;> exact ⟨_, rfl⟩
    exact ⟨i, Nat.le_refl i, hmoves, h, hcall⟩
  finite i h := by
    have hlate := runsJob_aftermath (h (i + 2) (by omega))
    omega

theorem neverStops_aftermath (u : Nat) : aftermathCourse.NeverStops u := by
  intro i stage h
  simp [(runsJob_aftermath h).2.2]

theorem codeEnds_aftermath : aftermathCourse.CodeEnds 0 :=
  Course.codeEnds_of_rest (fun _ => act_aftermath) (by decide +kernel) (by decide +kernel)

/-- When the client asks for its verdict the second job waits; it carries out that one
itself. -/
theorem earlyStop_returns :
    Reached 1 earlyStopRun.2 earlyStopRun.1 ∧
    earlyStopRun.1.ledger.pending = [6] ∧ unreported 1 earlyStopRun.2 = [[5]] ∧
    (earlyStopRun.1.thread 0).call = some (.stopping (.joining [1] 1)) ∧
    (∀ u, (earlyStopRun.1.thread u).duty ≠ .looping .worker .asleep) ∧
    aftermathCourse.state 0 = earlyStopRun.1 ∧
    (∃ j, ((aftermathCourse.state j).thread 0).call = none) ∧
    ((aftermathCourse.state 12).thread 0).duty = .looping (.owner .waiting) .entering ∧
    ∃ j k, aftermathCourse.history j = aftermathCourse.history 12 ++ k ∧
      (∃ v, (0, .returned (.verdict v)) ∈ events k) ∧
      (jobsEnded (ofThread 0 k)).map Prod.fst = [6] ∧
      (aftermathCourse.state j).ledger.pending = [] := by
  have hr : Reached 1 earlyStopRun.2 earlyStopRun.1 := .of_played (by decide +kernel)
  obtain ⟨_, _, _, hawake, _, _, _, hcourse⟩ := Reached.stop_abandons_nothing hr
  have hstart : aftermathCourse.state 0 = earlyStopRun.1 := trail_zero _ _
  have hcall : (earlyStopRun.1.thread 0).call = some (.stopping (.joining [1] 1)) := rfl
  obtain ⟨hreturns, _, _, _, hconcluded⟩ := hcourse aftermathCourse hstart fair_aftermath
    jobsEnd_aftermath neverStops_aftermath
  obtain ⟨i, _, hi⟩ := hreturns 0 0 _ (hstart ▸ hcall)
  have halarm : (0, .alarmed) ∈ events earlyStopRun.2 :=
    List.mem_of_getElem? (i := 8) rfl
  obtain ⟨j, k, _, hk, hdone⟩ := hconcluded 0 12 .waiting rfl codeEnds_aftermath rfl
  obtain ⟨k₁, m, es, rfl, v, hv⟩ := hdone.ends
  refine ⟨hr, rfl, rfl, hcall, hawake ⟨0, halarm⟩, hstart, ⟨i, hi⟩, rfl, j, _,
    hk, ⟨v, ?_⟩, hdone.carriedOut, hdone.noWork⟩
  exact mem_events_concat.2 (.inr ⟨rfl, hv⟩)

end CheckRounds
