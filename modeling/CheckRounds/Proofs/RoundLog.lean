import CheckRounds.Proofs.Reopening
import CheckRounds.Proofs.Serial
import CheckRounds.Proofs.Pool.Journal
/-!
What the log says of rounds is true.

The entries on rounds come in the order in which rounds are opened and drained, and each
round is drained before the next one is opened. Between two drains of a round, or
between its opening and its first drain, lie the entries on the batches of all jobs that
were added in between, and no others: a batch is logged before it is reported, and the
slot is kept until the drain has been logged. So the entry on a drain can be checked
against those entries.
-/

namespace CheckRounds

open Pool

variable {J E : Type} {n t u : Nat} {h k : List (Moment J E)} {m : Move J E}
  {es : List (Event J E)} {p q : Pool J} {o : Upshot J E}

/-! ## Each round is drained before the next one is opened -/

/-- A round with a drain to come stays so until its drain is logged. -/
theorem Shift.undecided {l : Ledger J} {s : Option Nat} {th : Thread J}
    (h : Shift t l s th m o) (hs : th.Sound) (hu : th.Undecided) :
    o.thread.Undecided ∨ ∃ jobs v, .completed jobs v ∈ o.events := by
  obtain ⟨r, hr, hv⟩ := hu
  cases h with
  | opened hd =>
    simp only [Thread.Sound, hd] at hs
    cases hr.symm.trans hs
  | release hd =>
    simp only [Thread.Sound, hd] at hs
    exact absurd hs (Thread.Undecided.not_decided ⟨r, hr, hv⟩)
  | submit => exact .inl ⟨_, rfl, rfl⟩
  | answer | conclude => exact .inr ⟨_, _, List.mem_cons_self⟩
  | alarm => exact .inl ⟨r, (Thread.round_roused th).trans hr, hv⟩
  | _ => exact .inl ⟨r, hr, hv⟩

/-- From the opening of a round on, its drain is yet to come, unless it was logged. -/
theorem Run.undecided (hp : p.Sound) (hr : Run p k q) (hu : (p.thread t).Undecided) :
    (q.thread t).Undecided ∨ ∃ x ∈ k, x.thread = t ∧
    ∃ jobs v, .completed jobs v ∈ x.events := by
  refine Run.induct (C := fun k q => (q.thread t).Undecided ∨
    ∃ x ∈ k, x.thread = t ∧ ∃ jobs v, .completed jobs v ∈ x.events) hp (.inl hu) ?_ hr
  intro k p u m q es hp ih ht
  rcases ih with hu | ⟨x, hx, hcompleted⟩
  · obtain ⟨o, hs, ht⟩ := ht
    by_cases htu : t = u
    · subst htu
      rcases hs.undecided (hp.threads t) hu with hu | hcompleted
      · exact .inl (ht.self ▸ hu)
      · exact .inr ⟨_, List.mem_append_right _ List.mem_cons_self, rfl, ht.events ▸
          hcompleted⟩
    · refine .inl ?_
      obtain ⟨r, hr, hv⟩ := hu
      exact ⟨r, (ht.same (f := Thread.round) Thread.round_roused rfl htu).trans hr, hv⟩
  · exact .inr ⟨x, List.mem_append_left _ hx, hcompleted⟩

theorem Shift.of_opened_round {l : Ledger J} {s : Option Nat} {th : Thread J}
    (h : Shift t l s th m o) (he : .opened ∈ o.events) : o.thread.Undecided := by
  cases h with
  | still _ hc | clerical _ _ _ hc => exact absurd (hc _ he) (by simp [Event.clerical])
  | opened => exact ⟨_, rfl, rfl⟩
  | _ => simp at he

theorem Reached.drained_between {k' : List (Moment J E)} {m' : Move J E}
    {es' : List (Event J E)}
    (hr : Reached n (h ++ ⟨t, m, es⟩ :: (k' ++ [⟨u, m', es'⟩])) q) (he : .opened ∈ es)
    (he' : .opened ∈ es') :
    ∃ x ∈ k', x.thread = t ∧ ∃ jobs v, .completed jobs v ∈ x.events := by
  have hsplit : h ++ ⟨t, m, es⟩ :: (k' ++ [⟨u, m', es'⟩]) =
      (h ++ [⟨t, m, es⟩]) ++ (k' ++ [⟨u, m', es'⟩]) := by simp
  rw [hsplit] at hr
  obtain ⟨p, hp, hafter⟩ := Run.of_append hr
  obtain ⟨x, hx, hstep⟩ := Run.of_concat hafter
  have hundecided : (p.thread t).Undecided := by
    obtain ⟨_, _, o, hs, ht⟩ := Reached.last hp
    rw [ht.self]
    exact hs.of_opened_round (ht.events ▸ he)
  rcases Run.undecided (Reached.sound hp) hx hundecided with hu | hcompleted
  · -- Whoever opens the next round has the slot and no round, so the first one is not
    -- open any more.
    exfalso
    have hsound := Run.sound (Reached.sound hp) hx
    obtain ⟨o, hs, ht⟩ := turns_of_step hstep
    have hd := hs.of_opened (ht.events ▸ he')
    have hslot := (hsound.slot u).1 (.inr (.inr hd))
    obtain rfl := hsound.eq_of_hasSlot hslot hu.hasSlot
    have hself := hsound.threads t
    simp only [Thread.Sound, hd] at hself
    obtain ⟨r, hround, _⟩ := hu
    cases hround.symm.trans hself
  · exact hcompleted

/-! ## The entries on batches -/

theorem sum_map_eq_total {α : Type} (f : α → Nat) (as : List α) :
    (as.map f).sum = total f as := by
  induction as with
  | nil => rfl
  | cons a as ih => rw [List.map_cons, List.sum_cons, ih, total]

/-- Where no thread is at a batch, the entries on the batches agree with the jobs that
ended. -/
theorem all_ok_executions (hk : ∀ u, Kept (ofThread u k) (p.thread u))
    (hp : ∀ u, (p.thread u).execution? = none) :
    (executions k).all Tally.ok = allGood (jobsEnded k) := by
  have htotal := total_executions hk hp Tally.counts_failed
  rw [Bool.eq_iff_iff, List.all_eq_true, allGood, List.all_eq_true]
  have hentries : (∀ tally ∈ executions k, tally.ok = true) ↔
      total Tally.failed (executions k) = 0 := by
    rw [total_eq_zero_iff]
    simp [Tally.ok]
  have hjobs : (∀ j ∈ jobsEnded k, j.2.outcome = true) ↔
      tallyOf Tally.failed (jobsEnded k) = 0 := by
    rw [tallyOf, total_eq_zero_iff]
    refine forall₂_congr fun j _ => ?_
    rw [← Fate.ok_verdict]
    cases j.2.verdict <;> simp [Verdict.ok, Verdict.tally, Tally.count]
  rw [hentries, hjobs, htotal]

theorem Shift.of_executed {l : Ledger J} {s : Option Nat} {th : Thread J}
    (h : Shift t l s th m o) {role : Role} {tally : Tally}
    (he : .executed role tally ∈ o.events) :
    ∃ x, th.duty = .looping role (.executing x) ∧ x.finished = true ∧
    tally = x.tally := by
  cases h with
  | still _ hc | clerical _ _ _ hc => exact absurd (hc _ he) (by simp [Event.clerical])
  | finish hd hx =>
    simp only [List.mem_singleton, Event.executed.injEq] at he
    obtain ⟨rfl, rfl⟩ := he
    exact ⟨_, hd, hx, rfl⟩
  | _ => simp at he

/-- While a thread has a batch, a round is open. -/
theorem Pool.Sound.exists_round (hp : p.Sound) (hu : 0 < (p.thread u).inFlight) :
    ∃ t, (p.thread t).round ≠ none := by
  have hle := hp.inFlight_le_todo u
  by_contra hnone
  have hclosed : ∀ t, (p.thread t).round = none := fun t => by
    by_contra hround
    exact hnone ⟨t, hround⟩
  have hzero := (Pool.Vacant.drained ⟨hp, hclosed⟩).1
  omega

/-- The entry on a batch tells of the last batch that its thread took, that batch was
taken since the round was opened or last drained, and the entry is the tally of the jobs
of the batch. -/
theorem Reached.executed_in_segment (hr : Reached n (h ++ [⟨u, m, es⟩]) q) {role : Role}
    {tally : Tally} (he : .executed role tally ∈ es) : ∃ t, opener h = some t ∧
      (batchesOf u (sinceDrain t h)).getLast? =
        some ((journal (ofThread u (sinceDrain t h))).now.map Prod.fst) ∧
      tally = tallyOn (journal (ofThread u (sinceDrain t h))).now := by
  obtain ⟨p, hp, o, hs, ht⟩ := hr.last
  obtain ⟨x, hd, hfinished, rfl⟩ := hs.of_executed (ht.events ▸ he)
  have hpos : 0 < (p.thread u).inFlight := by
    have hstage : 0 < x.size := (hp.sound.threads u).stage hd
    simpa [Thread.inFlight, hd] using hstage
  obtain ⟨t, hround⟩ := hp.sound.exists_round hpos
  have hk := hp.kept_since begins_startsAfresh hround u
  have hx : (p.thread u).execution? = some x := Thread.execution?_of_duty hd
  refine ⟨t, (hp.opened t).2 hround, ?_, ?_⟩
  · rw [sinceDrain, batchesOf, hk.batches, hx]
    simp [Execution.unended_of_finished hfinished]
  · rw [← Execution.record_of_finished hfinished]
    exact hk.record x hx

/-! ## What a round counted before -/

/-- The jobs that the last entry on a drain of the open round of `t` counts, zero if
there is none. -/
def loggedBefore (t : Nat) (h : List (Moment J E)) : Nat :=
  ((completions (ofThread t (sinceOpening t h))).getLast?.map Prod.fst).getD 0

theorem loggedBefore_of_opened (ho : es.any Event.opensRound = true) :
    loggedBefore t (h ++ [⟨t, m, es⟩]) = 0 := by
  rw [loggedBefore, sinceOpening, since_concat_of_marked ho]
  rfl

theorem loggedBefore_of_completed {jobs : Nat} {v : Bool}
    (ho : es.any Event.opensRound = false)
    (hc : es.flatMap Event.completions = [(jobs, v)]) :
    loggedBefore t (h ++ [⟨t, m, es⟩]) = jobs := by
  rw [loggedBefore, sinceOpening, since_concat_of_not_marked fun _ => ho]
  simp [completions, ofThread_singleton, hc]

theorem Event.of_not_startsAfresh {e : Event J E} (h : e.startsAfresh = false) :
    e.opensRound = false ∧ e.completions = [] := by
  cases e with
  | opened | completed => cases h
  | _ => exact ⟨rfl, rfl⟩

theorem loggedBefore_of_quiet (hq : u = t → es.any Event.startsAfresh = false) :
    loggedBefore t (h ++ [⟨u, m, es⟩]) = loggedBefore t h := by
  have hnone : ∀ e ∈ es, u = t → e.opensRound = false ∧ e.completions = [] :=
    fun e he hu =>
    Event.of_not_startsAfresh (by simpa using List.any_eq_false.1 (hq hu) e he)
  have ho : u = t → es.any Event.opensRound = false := fun hu =>
    List.any_eq_false.2 fun e he => by simp [(hnone e he hu).1]
  rw [loggedBefore, loggedBefore, sinceOpening, since_concat_of_not_marked ho,
    completions, completions, ofThread_append, collect_append, ofThread_singleton]
  by_cases hu : u = t
  · have hc : es.flatMap Event.completions = [] := List.flatMap_eq_nil_iff.2 fun e he =>
      (hnone e he hu).2
    simp [hu, hc, sinceOpening]
  · simp [hu, sinceOpening]

/-- A thread whose round has just been opened has counted no job, and one that has just
logged a drain has counted those that the entry tells. -/
theorem Shift.logged {l : Ledger J} {s : Option Nat} {th : Thread J}
    (h : Shift t l s th m o) (he : o.events.any Event.startsAfresh = true) {r : Round}
    (hr : o.thread.round = some r) :
    (o.events.any Event.opensRound = true ∧ r.added = 0) ∨
    (o.events.any Event.opensRound = false ∧
      ∃ v, o.events.flatMap Event.completions = [(r.added, v)]) := by
  cases h with
  | still _ hc | clerical _ _ _ hc =>
    obtain ⟨e, hmem, hfresh⟩ := List.any_eq_true.1 he
    cases (Event.not_startsAfresh_of_clerical (hc e hmem)).symm.trans hfresh
  | opened =>
    obtain rfl := Option.some.inj hr
    exact .inl ⟨rfl, rfl⟩
  | answer | conclude =>
    obtain rfl := Option.some.inj hr
    exact .inr ⟨rfl, _, rfl⟩
  | _ => simp [Event.startsAfresh] at he

/-- What the entry on the next drain will count: what the last one counted, and the jobs
handed over since. -/
theorem Run.added_since_drain (hv : p.Vacant) (hr : Run p h q)
    (ht : q.slot = none ∨ q.slot = some t) {r : Round}
    (hround : (q.thread t).round = some r) :
    r.added = loggedBefore t h + (jobsSubmitted (sinceDrain t h)).length := by
  have hcount : ∀ r, (q.thread t).round = some r →
      r.added = loggedBefore t h + (jobsSubmitted (sinceDrain t h)).length := by
    apply Run.opener_induct (p := p) (C := fun t k th => ∀ r, th.round = some r →
      r.added = loggedBefore t k + (jobsSubmitted (sinceDrain t k)).length) hv _ _ _ _ _
        _ hr t ht
    · intro t r hr
      simp [hv.noRound t] at hr
    · intro t k th
      rw [Thread.round_roused]
    · intro t k
      exact Iff.rfl
    · intro k x t m o hx hk hs r' hr'
      rw [sinceDrain_concat]
      cases hafresh : o.events.any Event.startsAfresh with
      | false =>
        have ho : o.events.any Event.opensRound = false :=
          List.any_eq_false.2 fun e he => by
          simp [(Event.of_not_startsAfresh
            (by simpa using List.any_eq_false.1 hafresh e he)).1]
        obtain ⟨r, hr, hadded⟩ := hs.added ho hr'
        rw [loggedBefore_of_quiet fun _ => hafresh, hadded, hk r hr]
        simp [Nat.add_assoc]
      | true =>
        rw [if_pos ⟨rfl, rfl⟩, List.length_nil, Nat.add_zero]
        rcases hs.logged hafresh hr' with ⟨ho, hadded⟩ | ⟨ho, v, hc⟩
        · rw [loggedBefore_of_opened ho, hadded]
        · rw [loggedBefore_of_completed ho hc]
    · intro k x t u m o _ hu hk hs hn r hr
      rw [loggedBefore_of_quiet fun h => absurd h hu, sinceDrain_concat, hk r hr]
      simp [hu, hs.submitted_eq_nil hn]
    · intro k t u th th' _ _ _ _ hr' r hr
      cases hr'.symm.trans hr
  exact hcount r hround

/-! ## The entry on a drain -/

/-- The entry on a drain by `t`, with this count of jobs and this verdict, agrees with
what was logged since `t` opened its round, or logged its last drain: with the entries
on batches and those on crashes. -/
structure EntryTrue (t : Nat) (h : List (Moment J E)) (jobs : Nat) (v : Bool) : Prop where
  /-- The round that is drained is the one that was opened last, and it has not been
  closed. -/
  opened : opener h = some t
  /-- All batches that were taken have been logged. -/
  batches : ∀ u, batchesOf u (sinceDrain t h) =
    (journal (ofThread u (sinceDrain t h))).done.map (·.map Prod.fst)
  /-- Each entry on a batch is the tally of its jobs. -/
  entries : ∀ u, executions (ofThread u (sinceDrain t h)) =
    (journal (ofThread u (sinceDrain t h))).done.map tallyOn
  /-- The jobs of these batches are those that ended, and those that were added to the
  round. -/
  ended : ∀ u, jobsEnded (ofThread u (sinceDrain t h)) =
    (journal (ofThread u (sinceDrain t h))).done.flatten
  added : ((jobsEnded (sinceDrain t h)).map Prod.fst).Perm
    (jobsAdded (ofThread t (sinceDrain t h)))
  jobs : jobs = loggedBefore t h + ((executions (sinceDrain t h)).map Tally.executed).sum
  verdict : v = (executions (sinceDrain t h)).all Tally.ok
  crashes : (crashLogs (sinceDrain t h)).Perm ((jobsEnded (sinceDrain t h)).filterMap
    fun j => j.2.payload?)

theorem Reached.entryTrue (hr : Reached n (h ++ [⟨t, m, es⟩]) q) {jobs : Nat} {v : Bool}
    (he : .completed jobs v ∈ es) : EntryTrue t h jobs v := by
  have hadded := hr.outcomes_perm he
  have hverdict := hr.verdict_eq he
  rw [← allGood_jobsEnded] at hverdict
  obtain ⟨p, hp, o, hs, ht⟩ := hr.last
  rw [ht.events] at he
  obtain ⟨⟨why, hd⟩, hround, _⟩ := hs.of_completed he
  obtain ⟨r, hr, rfl⟩ := hs.jobs_of_completed he
  have hst := (hp.sound.slot t).1 (.inl hround)
  have hblank := hp.sound.blank hst (by simp [Thread.AtRest, hd])
  have hidle : ∀ u, (p.thread u).execution? = none := fun u =>
    ((hp.sound.threads u).idle_of_inFlight (hblank.inFlight u)).1
  have hk : ∀ u, Kept (ofThread u (sinceDrain t h)) (p.thread u) :=
    hp.kept_since begins_startsAfresh hround
  have hall : ∀ u, (journal (ofThread u (sinceDrain t h))).now = [] := fun u =>
    (hk u).between (hidle u)
  refine ⟨(hp.opened t).2 hround, fun u => ?_, fun u => (hk u).executions, fun u => ?_,
    ?_, ?_, ?_, ?_⟩
  · rw [batchesOf, (hk u).batches, hidle u]
    simp
  · rw [(hk u).ended, hall u, List.append_nil]
  · rw [← outcomes_fst]
    exact hadded
  · have hsubmitted := Run.submitted_since (.new n) hp hround
    have hnone : p.unadded = [] := by
      rw [hp.sound.unadded_of_slot (.inr hst)]
      simp [Thread.unadded, hd]
    have hown : jobsAdded (ofThread t (sinceDrain t h)) = jobsAdded (sinceDrain t h) :=
      hp.addedJobs_since begins_startsAfresh hround
    rw [hnone, List.append_nil, ← hown] at hsubmitted
    have hlength := hadded.length_eq
    rw [outcomes_fst, List.length_map] at hlength
    rw [Run.added_since_drain (.new n) hp (.inr hst) hr, hsubmitted, sum_map_eq_total,
      total_executions hk hidle Tally.counts_executed, tallyOf_executed, hlength]
  · rw [hverdict]
    exact (all_ok_executions hk hidle).symm
  · exact perm_crashLogs hk hidle

/-- What the log says of rounds is true. Each round that is opened is drained before the
next one is opened. Each entry on a drain is about the round that is open, and agrees
with the entries that were made since the opening or since the last drain: those on
batches count its jobs and give its verdict, and there is one on a crash for each job
that crashed. Each entry on a batch is made while the round is open that the batch
belongs to, after the batch was taken and before the next drain is logged. -/
theorem Reached.log_true (hr : Reached n h p) :
    (∀ k t m es k' u m' es' k'', h = k ++ ⟨t, m, es⟩ :: (k' ++ ⟨u, m', es'⟩ :: k'') →
      .opened ∈ es → .opened ∈ es' →
      ∃ x ∈ k', x.thread = t ∧ ∃ jobs v, .completed jobs v ∈ x.events) ∧
    ∀ k u m es k', h = k ++ ⟨u, m, es⟩ :: k' →
      (∀ jobs v, .completed jobs v ∈ es → EntryTrue u k jobs v) ∧
      ∀ role tally, .executed role tally ∈ es → ∃ t, opener k = some t ∧
        (batchesOf u (sinceDrain t k)).getLast? =
          some ((journal (ofThread u (sinceDrain t k))).now.map Prod.fst) ∧
        tally = tallyOn (journal (ofThread u (sinceDrain t k))).now := by
  refine ⟨?_, ?_⟩
  · rintro k t m es k' u m' es' k'' rfl he he'
    have hsplit : k ++ ⟨t, m, es⟩ :: (k' ++ ⟨u, m', es'⟩ :: k'') =
        (k ++ ⟨t, m, es⟩ :: (k' ++ [⟨u, m', es'⟩])) ++ k'' := by simp
    rw [Reached, hsplit] at hr
    obtain ⟨q, hq, _⟩ := Run.of_append hr
    exact Reached.drained_between hq he he'
  · rintro k u m es k' rfl
    rw [Reached, show k ++ ⟨u, m, es⟩ :: k' = (k ++ [⟨u, m, es⟩]) ++ k' by simp] at hr
    obtain ⟨q, hq, _⟩ := Run.of_append hr
    exact ⟨fun jobs v he => Reached.entryTrue hq he, fun role tally he =>
      Reached.executed_in_segment hq he⟩

/-- A client starts a worker and is about to have a round open. -/
def beforeOpening : Pool Nat × List (Moment Nat Unit) :=
  played 1
    (List.flatten [[(0, .request (.start 1))], onward 0 3, [(0, .spawn 1)], onward 0 4,
    [(0, .openRound)], onward 0 3])

def atOpening : Pool Nat := (beforeOpening.1.setRound 0 (some {})).setDuty 0 .client

/-- The client adds two jobs, of which the worker carries out the first one, which
fails. It waits, adds a third job, which crashes, and is about to log the drain at the
close of its round. -/
def untilDrain : Pool Nat × List (Moment Nat Unit) :=
  (atOpening.play (List.flatten [[(0, .add [5, 6])], onward 0 3, onward 1 4,
    carryOut 1 false, onward 1 3,
    [(0, .wait)], onward 0 4, carryOut 0 true, onward 0 9, [(0, .add [7])], onward 0 2,
    [(0, .rouse none), (0, .close false)], onward 0 4,
    [(0, .work .proceed), (0, .work (.conclude (.error .other)))],
    [(0, .work (.discard none)), (0, .work .proceed)], onward 0 8])).getD (atOpening, [])

def atDrain : Pool Nat :=
  (untilDrain.1.setRound 0 (some { added := 3, verdict := some false })).setDuty 0
    (.releasing false)

/-- The client closes its round, and is about to have another one open. -/
def untilOpening : Pool Nat × List (Moment Nat Unit) :=
  (atDrain.play (List.flatten [onward 0 1, [(0, .openRound)], onward 0 3])).getD
    (atDrain, [])

def atNextOpening : Pool Nat := (untilOpening.1.setRound 0 (some {})).setDuty 0 .client

theorem reopened_logged :
    Reached 1 (beforeOpening.2 ++ ⟨0, .advance, [.opened]⟩ ::
      (untilDrain.2 ++ ⟨0, .advance, [.completed 3 false]⟩ ::
        (untilOpening.2 ++ [⟨0, .advance, [.opened]⟩]))) atNextOpening ∧
    loggedBefore 0 (beforeOpening.2 ++ ⟨0, .advance, [.opened]⟩ :: untilDrain.2) = 2 ∧
    executions (sinceDrain 0 (beforeOpening.2 ++ ⟨0, .advance,
      [.opened]⟩ :: untilDrain.2)) = [⟨1, 1, 1⟩] ∧
    EntryTrue 0 (beforeOpening.2 ++ ⟨0, .advance, [.opened]⟩ :: untilDrain.2) 3 false ∧
    ∃ x ∈ untilDrain.2 ++ ⟨0, .advance, [.completed 3 false]⟩ :: untilOpening.2,
      x.thread = 0 ∧ ∃ jobs v, .completed jobs v ∈ x.events := by
  have hbefore : Reached 1 beforeOpening.2 beforeOpening.1 :=
    .of_played (by decide +kernel)
  have hopened : Reached 1 (beforeOpening.2 ++ [⟨0, .advance, [.opened]⟩]) atOpening :=
    Run.snoc hbefore rfl
  have huntil : Run atOpening untilDrain.2 untilDrain.1 :=
    Run.of_played (by decide +kernel) _
  have hlogged :
      Run atOpening (untilDrain.2 ++ [⟨0, .advance, [.completed 3 false]⟩]) atDrain :=
    Run.snoc huntil rfl
  have hagain : Run atDrain untilOpening.2 untilOpening.1 :=
    Run.of_played (by decide +kernel) _
  have hnext : Run atDrain (untilOpening.2 ++ [⟨0, .advance, [.opened]⟩]) atNextOpening :=
    Run.snoc hagain rfl
  have hall := Run.trans hopened (Run.trans hlogged hnext)
  have hr : Reached 1 (beforeOpening.2 ++ ⟨0, .advance, [.opened]⟩ ::
      (untilDrain.2 ++ ⟨0, .advance, [.completed 3 false]⟩ ::
        (untilOpening.2 ++ [⟨0, .advance, [.opened]⟩]))) atNextOpening := by
    simpa [Reached] using hall
  obtain ⟨hrounds, hentries⟩ := Reached.log_true hr
  obtain ⟨hdrain, _⟩ :=
    hentries (beforeOpening.2 ++ ⟨0, .advance, [.opened]⟩ :: untilDrain.2) 0 .advance
    [.completed 3 false] (untilOpening.2 ++ [⟨0, .advance, [.opened]⟩]) (by simp)
  refine ⟨hr, by decide +kernel, by decide +kernel, hdrain 3 false (by simp), ?_⟩
  exact hrounds beforeOpening.2 0 .advance [.opened] _ 0 .advance [.opened] [] (by simp)
    (by simp) (by simp)

end CheckRounds
