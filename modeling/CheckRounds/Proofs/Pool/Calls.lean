import CheckRounds.Proofs.Verdict
import CheckRounds.Proofs.Pool.Opener
/-!
What a round comes to follows from the calls on it.

`Account` keeps books on a round with the calls alone at hand: the jobs that were added,
whether they are drained, and what was logged and answered so far. It knows no threads,
no batches and no order of execution. A pool, on any schedule, logs and answers the
same, apart from what the opener of the round is just about to log and answer
(`Run.keeps`).
-/

namespace CheckRounds

open Pool

variable {J E : Type} {n t u : Nat} {h k : List (Moment J E)} {m : Move J E}
  {es : List (Event J E)} {p q : Pool J} {o : Upshot J E}

/-! ## What a history shows of the rounds -/

namespace Event

def openings : Event J E → List (RoundCall J)
  | .opened => [.opening]
  | _ => []

/-- The entries on drained rounds in the log: the jobs added to the round so far, and
the verdict. -/
def completions : Event J E → List (Nat × Bool)
  | .completed jobs v => [(jobs, v)]
  | _ => []

def answers : Event J E → List Bool
  | .returned (.verdict v) => [v]
  | _ => []

end Event

def Moment.calls (m : Moment J E) : List (RoundCall J) :=
  m.move.calls ++ m.events.flatMap Event.openings

/-- The calls on the rounds of a pool, one round after another. -/
def roundCalls (h : List (Moment J E)) : List (RoundCall J) := h.flatMap Moment.calls

def completions (h : List (Moment J E)) : List (Nat × Bool) := collect Event.completions h

/-- The verdicts that were given to those who waited for them. -/
def answers (h : List (Moment J E)) : List Bool := collect Event.answers h

/-! ## The books on a round -/

structure Account (J : Type) where
  /-- The jobs that were added to the round. -/
  added : Nat := 0
  /-- Those of them that the last verdict is about, or the next one if some are not
  drained. -/
  jobs : List J := []
  drained : Bool := true
  completions : List (Nat × Bool) := []
  answers : List Bool := []

namespace Account

/-- The verdict on these jobs, if each is good or not by itself. -/
def verdict (ok : J → Bool) (a : Account J) : Bool := a.jobs.all ok

def drain (ok : J → Bool) (a : Account J) : Account J :=
  if a.drained then a
  else
    { a with drained := true, completions := a.completions ++ [(a.added, a.verdict ok)] }

def tell (ok : J → Bool) (a : Account J) : Account J :=
  { a with answers := a.answers ++ [a.verdict ok] }

def call (ok : J → Bool) (a : Account J) : RoundCall J → Account J
  | .opening => { a with added := 0, jobs := [], drained := false }
  | .add jobs =>
    { a with
      added := a.added + jobs.length
      jobs := if a.drained then jobs else a.jobs ++ jobs
      drained := false }
  | .wait => (a.drain ok).tell ok
  | .close => a.drain ok

end Account

def account (ok : J → Bool) (cs : List (RoundCall J)) : Account J :=
  cs.foldl (Account.call ok) {}

theorem account_append (ok : J → Bool) (cs ds : List (RoundCall J)) :
    account ok (cs ++ ds) = ds.foldl (Account.call ok) (account ok cs) :=
  List.foldl_append

/-! ## Books and threads -/

namespace Thread

/-- What the thread drains its round for, if it is at that. -/
def draining (th : Thread J) : Option Occasion :=
  match th.duty with
  | .looping (.owner why) _ => some why
  | .completing _ why => some why
  | _ => none

theorem draining_roused (th : Thread J) : th.roused.draining = th.draining :=
  apply_roused (fun th role hd => by cases role <;> simp [draining, hd]) th

theorem Sound.draining_eq_none {th : Thread J} (h : th.Sound) (hr : th.round = none) :
    th.draining = none := by
  unfold draining
  split
  · rename_i hd
    obtain ⟨r, hround, _⟩ := h.undecided hd
    simp [hr] at hround
  · rename_i hd
    simp only [Sound, hd] at h
    obtain ⟨r, hround, _⟩ := h
    simp [hr] at hround
  · rfl

end Thread

/-- The books on the open round agree with what its opener knows of it; `recent` are the
jobs handed over since the last drain. -/
structure Account.Matches (ok : J → Bool) (a : Account J) (recent : List J) (r : Round)
    (draining : Bool) : Prop where
  added : a.added = r.added
  drained : a.drained = (draining || r.verdict.isSome)
  undecided : r.verdict = none → a.jobs = recent
  decided : ∀ v, r.verdict = some v → a.verdict ok = v ∧ recent = []

/-- The books are ahead of a history by what the opener of the round is about to log and
answer. -/
structure Keeps (ok : J → Bool) (a : Account J) (logged : List (Nat × Bool))
    (told : List Bool) (recent : List J) (th : Thread J) : Prop where
  completions : a.completions =
    logged ++ th.draining.toList.map fun _ => (a.added, a.verdict ok)
  answers : a.answers =
    told ++ (th.draining.toList.filter (· = .waiting)).map fun _ => a.verdict ok
  round : ∀ r, th.round = some r → a.Matches ok recent r th.draining.isSome

variable {ok : J → Bool} {a : Account J} {logged : List (Nat × Bool)} {told : List Bool}
  {recent : List J} {th th' : Thread J}

namespace Account

theorem drain_of_drained (ok : J → Bool) (h : a.drained = true) : a.drain ok = a :=
  if_pos h

theorem drain_of_not_drained (ok : J → Bool) (h : a.drained = false) :
    a.drain ok = { a with
      drained := true
      completions := a.completions ++ [(a.added, a.verdict ok)] } :=
  if_neg (by simp [h])

theorem Matches.tell {r : Round} {b : Bool} (hm : a.Matches ok recent r b) :
    (a.tell ok).Matches ok recent r b :=
  ⟨hm.added, hm.drained, hm.undecided, hm.decided⟩

theorem Matches.drain {r : Round} (hm : a.Matches ok recent r false)
    (hv : r.verdict = none) :
    (a.drain ok).Matches ok recent r true := by
  have hopen : a.drained = false := by rw [hm.drained, hv]; rfl
  rw [drain_of_not_drained ok hopen]
  exact ⟨hm.added, rfl, hm.undecided, hm.decided⟩

end Account

theorem Keeps.congr (hk : Keeps ok a logged told recent th)
    (hd : th'.draining = th.draining) (hr : th'.round = th.round) :
    Keeps ok a logged told recent th' where
  completions := by rw [hd]; exact hk.completions
  answers := by rw [hd]; exact hk.answers
  round r h := by rw [hd]; exact hk.round r (hr ▸ h)

/-- While no round is open, the books are up to date, whatever thread one looks at. -/
theorem Keeps.of_noRound (hk : Keeps ok a logged told recent th) (hs : th.Sound)
    (hr : th.round = none) (hs' : th'.Sound) (hr' : th'.round = none) (recent' : List J) :
    Keeps ok a logged told recent' th' := by
  have hd := hs.draining_eq_none hr
  have hd' := hs'.draining_eq_none hr'
  refine ⟨?_, ?_, fun r h => by simp [hr'] at h⟩
  · rw [hd', ← hd]
    exact hk.completions
  · rw [hd', ← hd]
    exact hk.answers

/-! ## One step -/

theorem openings_of_clerical {es : List (Event J E)} (h : ∀ e ∈ es, e.clerical = true) :
    es.flatMap Event.openings = [] :=
  flatMap_of_clerical h fun e he => by
    cases e with
    | opened => cases he
    | _ => rfl

theorem completions_of_clerical {es : List (Event J E)}
    (h : ∀ e ∈ es, e.clerical = true) :
    es.flatMap Event.completions = [] :=
  flatMap_of_clerical h fun e he => by
    cases e with
    | completed => cases he
    | _ => rfl

theorem answers_of_clerical {es : List (Event J E)} (h : ∀ e ∈ es, e.clerical = true) :
    es.flatMap Event.answers = [] :=
  flatMap_of_clerical h fun e he => by
    cases e with
    | returned r =>
      cases r with
      | verdict => cases he
      | _ => rfl
    | _ => rfl

theorem not_any_startsAfresh_of_clerical {es : List (Event J E)}
    (h : ∀ e ∈ es, e.clerical = true) : es.any Event.startsAfresh = false :=
  List.any_eq_false.2 fun e he => by simp [Event.not_startsAfresh_of_clerical (h e he)]

theorem Shift.calls_eq_nil {l : Ledger J} {s : Option Nat} (h : Shift t l s th m o)
    (hn : ¬ th.HasSlot) :
    m.calls = [] ∧ o.events.flatMap Event.openings = [] ∧
      o.events.flatMap Event.completions = [] ∧
      o.events.flatMap Event.answers = [] ∧ o.events.any Event.startsAfresh = false := by
  cases h with
  | still hm hc | clerical hm _ _ hc =>
    exact ⟨hm, openings_of_clerical hc, completions_of_clerical hc,
      answers_of_clerical hc, not_any_startsAfresh_of_clerical hc⟩
  | seize hm => exact ⟨hm, rfl, rfl, rfl, rfl⟩
  | opened hd => exact absurd (.inr (.inr hd)) hn
  | submit _ hr | retell _ hr | engage _ hr | dismiss _ hr | answer _ hr
  | conclude _ hr =>
    exact absurd (.inl (by simp [hr])) hn
  | _ => exact ⟨rfl, rfl, rfl, rfl, rfl⟩

theorem Keeps.of_quiet {es : List (Event J E)} (hk : Keeps ok a logged told recent th)
    (hm : m.calls = [])
    (he : es.flatMap Event.openings = [] ∧ es.flatMap Event.completions = [] ∧
      es.flatMap Event.answers = [] ∧ es.any Event.startsAfresh = false)
    (hd : th'.draining = th.draining) (hr : th'.round = th.round) :
    Keeps ok ((m.calls ++ es.flatMap Event.openings).foldl (Account.call ok) a)
      (logged ++ es.flatMap Event.completions) (told ++ es.flatMap Event.answers)
      (if es.any Event.startsAfresh then [] else recent ++ m.submitted) th' := by
  obtain ⟨ho, hc, ha, hf⟩ := he
  simpa [hm, ho, hc, ha, hf, Move.submitted_of_calls hm] using hk.congr hd hr

/-- While nothing is being drained, the books are up to date. -/
theorem Keeps.settled (hk : Keeps ok a logged told recent th) (hd : th.draining = none) :
    a.completions = logged ∧ a.answers = told ∧
      ∀ r, th.round = some r → a.Matches ok recent r false := by
  have hcompletions := hk.completions
  have hanswers := hk.answers
  have hround := hk.round
  simp only [hd, Option.toList_none, List.map_nil, List.filter_nil, List.append_nil,
    Option.isSome_none] at hcompletions hanswers hround
  exact ⟨hcompletions, hanswers, hround⟩

theorem Keeps.of_settled (hd : th.draining = none) (hc : a.completions = logged)
    (ha : a.answers = told) (hr : ∀ r, th.round = some r → a.Matches ok recent r false) :
    Keeps ok a logged told recent th where
  completions := by simp [hd, hc]
  answers := by simp [hd, ha]
  round r h := by
    rw [hd]
    exact hr r h

/-- The books on a round that was drained and is being told of are about the jobs of its
verdict. -/
theorem Keeps.verdict_eq (hk : Keeps ok a logged told recent th) (hs : th.Sound)
    {v : Bool} {why : Occasion} (hd : th.duty = .completing v why)
    (hv : v = recent.all ok) {r : Round} (hr : th.round = some r) :
    a.added = r.added ∧ a.drained = true ∧ a.verdict ok = v := by
  have hround := hk.round r hr
  simp only [Thread.Sound, hd] at hs
  obtain ⟨r', hr', hnone⟩ := hs
  obtain rfl := Option.some.inj (hr ▸ hr')
  refine ⟨hround.added, ?_, ?_⟩
  · rw [hround.drained]
    simp [Thread.draining, hd]
  · rw [Account.verdict, hround.undecided hnone, hv]

/-- After an addition. Late jobs start the books on the next drain, others join those that
are not drained yet. -/
theorem Keeps.after_add {r : Round} {jobs : List J}
    (hk : Keeps ok a logged told recent th) (hd : th.draining = none)
    (hr : th.round = some r) (hd' : th'.draining = none)
    (hr' : th'.round = some { added := r.added + jobs.length }) :
    Keeps ok (a.call ok (.add jobs)) logged told (recent ++ jobs) th' := by
  obtain ⟨hcompletions, hanswers, hround⟩ := hk.settled hd
  have hbooks := hround r hr
  refine .of_settled hd' hcompletions hanswers fun r' hr'' => ?_
  obtain rfl := Option.some.inj (hr'.symm.trans hr'')
  refine ⟨congrArg (· + jobs.length) hbooks.added, rfl, fun _ => ?_,
    fun v hv => by simp at hv⟩
  change (if a.drained then jobs else a.jobs ++ jobs) = recent ++ jobs
  rw [hbooks.drained]
  cases hverdict : r.verdict with
  | none => simp [hbooks.undecided hverdict]
  | some v => simp [(hbooks.decided v hverdict).2]

/-- A round with a verdict at hand is drained in the books as well. -/
theorem Keeps.drain_eq {r : Round} {v : Bool} (hk : Keeps ok a logged told recent th)
    (hd : th.draining = none) (hr : th.round = some r) (hverdict : r.verdict = some v) :
    a.drain ok = a := by
  obtain ⟨_, _, hround⟩ := hk.settled hd
  refine Account.drain_of_drained ok ?_
  rw [(hround r hr).drained, hverdict]
  rfl

/-- A drain that is asked for is in the books at once; the opener has yet to come to
it. -/
theorem Keeps.drain {r : Round} (hk : Keeps ok a logged told recent th)
    (hd : th.draining = none) (hr : th.round = some r) (hverdict : r.verdict = none) :
    (a.drain ok).completions =
        logged ++ [((a.drain ok).added, (a.drain ok).verdict ok)] ∧
      (a.drain ok).answers = told ∧
      ∀ r', th.round = some r' → (a.drain ok).Matches ok recent r' true := by
  obtain ⟨hcompletions, hanswers, hround⟩ := hk.settled hd
  have hbooks := hround r hr
  have hopen : a.drained = false := by rw [hbooks.drained, hverdict]; rfl
  refine ⟨?_, ?_, fun r' hr' => ?_⟩
  · rw [Account.drain_of_not_drained ok hopen, ← hcompletions]
    rfl
  · rw [Account.drain_of_not_drained ok hopen, ← hanswers]
  · obtain rfl := Option.some.inj (hr.symm.trans hr')
    exact hbooks.drain hverdict

/-- After the log of a drain; `said` is what the opener is told. -/
theorem Keeps.after_drain {r : Round} {v : Bool} {why : Occasion} {said : List Bool}
    (hk : Keeps ok a logged told recent th) (hs : th.Sound)
    (hd : th.duty = .completing v why) (hv : v = recent.all ok) (hr : th.round = some r)
    (hd' : th'.draining = none) (hr' : th'.round = some { r with verdict := some v })
    (hsaid : said = if why = .waiting then [v] else []) :
    Keeps ok a (logged ++ [(r.added, v)]) (told ++ said) [] th' := by
  obtain ⟨hadded, hdrained, hverdict⟩ := hk.verdict_eq hs hd hv hr
  have hwhy : th.draining = some why := by simp [Thread.draining, hd]
  refine .of_settled hd' ?_ ?_ fun r' hr'' => ?_
  · rw [hk.completions, hwhy, hadded, hverdict]
    rfl
  · rw [hk.answers, hwhy, hverdict, hsaid]
    by_cases hwait : why = .waiting <;> simp [hwait]
  · obtain rfl := Option.some.inj (hr'.symm.trans hr'')
    exact ⟨hadded, hdrained, by simp, fun w hw =>
      ⟨hverdict.trans (Option.some.inj hw), rfl⟩⟩

/-- What a moment of the opener adds to the books it adds to the history, or it is about
to. -/
theorem Shift.keeps {l : Ledger J} {s : Option Nat} (h : Shift t l s th m o)
    (hs : th.Sound) (hv : ∀ v why, th.duty = .completing v why → v = recent.all ok)
    (hk : Keeps ok a logged told recent th) :
    Keeps ok ((m.calls ++ o.events.flatMap Event.openings).foldl (Account.call ok) a)
      (logged ++ o.events.flatMap Event.completions)
      (told ++ o.events.flatMap Event.answers)
      (if o.events.any Event.startsAfresh then [] else recent ++ m.submitted)
      o.thread := by
  cases h with
  | still hm hc | clerical hm _ _ hc =>
    exact hk.of_quiet hm ⟨openings_of_clerical hc, completions_of_clerical hc,
      answers_of_clerical hc, not_any_startsAfresh_of_clerical hc⟩ rfl rfl
  | configure | flag | spawn => exact hk.of_quiet rfl ⟨rfl, rfl, rfl, rfl⟩ rfl rfl
  | alarm =>
    exact hk.of_quiet rfl ⟨rfl, rfl, rfl, rfl⟩ (Thread.draining_roused th)
      (Thread.round_roused th)
  | opened hd =>
    obtain ⟨hcompletions, hanswers, _⟩ := hk.settled (by simp [Thread.draining, hd])
    change Keeps ok (a.call ok .opening) (logged ++ []) (told ++ []) [] _
    rw [List.append_nil, List.append_nil]
    refine .of_settled rfl hcompletions hanswers fun r hr => ?_
    obtain rfl : {} = r := Option.some.inj hr
    exact ⟨rfl, rfl, fun _ => rfl, fun v hv => by simp at hv⟩
  | @submit r jobs hd hr hj =>
    have hcalls : (Move.add jobs : Move J E).calls = [.add jobs] := by
      simp [Move.calls, hj]
    rw [hcalls]
    change Keeps ok (a.call ok (.add jobs)) (logged ++ []) (told ++ []) (recent ++ jobs) _
    rw [List.append_nil, List.append_nil]
    exact hk.after_add (by simp [Thread.draining, hd]) hr rfl rfl
  | @retell r v hd hr hverdict =>
    have hnone : th.draining = none := by simp [Thread.draining, hd]
    obtain ⟨hcompletions, hanswers, hround⟩ := hk.settled hnone
    change Keeps ok ((a.drain ok).tell ok) (logged ++ []) (told ++ [v]) (recent ++ []) th
    rw [hk.drain_eq hnone hr hverdict, List.append_nil, List.append_nil]
    refine .of_settled hnone hcompletions ?_ fun r' hr' => (hround r' hr').tell
    rw [Account.tell, hanswers, ((hround r hr).decided v hverdict).1]
  | @engage m r why hd hr hverdict hm =>
    obtain ⟨hcompletions, hanswers, hmatches⟩ :=
      hk.drain (by simp [Thread.draining, hd]) hr hverdict
    rcases hm with ⟨rfl, rfl⟩ | ⟨u, rfl, rfl⟩
    · change Keeps ok ((a.drain ok).tell ok) (logged ++ []) (told ++ []) (recent ++ []) _
      rw [List.append_nil, List.append_nil, List.append_nil]
      refine ⟨hcompletions, ?_, fun r' hr' => (hmatches r' hr').tell⟩
      rw [Account.tell, hanswers]
      rfl
    · change Keeps ok (a.drain ok) (logged ++ []) (told ++ []) (recent ++ []) _
      rw [List.append_nil, List.append_nil, List.append_nil]
      exact ⟨hcompletions, hanswers.trans (List.append_nil _).symm, hmatches⟩
  | @dismiss r v u hd hr hverdict =>
    have hnone : th.draining = none := by simp [Thread.draining, hd]
    obtain ⟨hcompletions, hanswers, hround⟩ := hk.settled hnone
    change Keeps ok (a.drain ok) (logged ++ []) (told ++ []) (recent ++ []) _
    rw [hk.drain_eq hnone hr hverdict, List.append_nil, List.append_nil, List.append_nil]
    exact .of_settled rfl hcompletions hanswers hround
  | @answer v r hd hr => exact hk.after_drain hs hd (hv v _ hd) hr rfl rfl rfl
  | @conclude v u r hd hr => exact hk.after_drain hs hd (hv v _ hd) hr rfl rfl rfl
  | release hd =>
    obtain ⟨hcompletions, hanswers, _⟩ := hk.settled (by simp [Thread.draining, hd])
    change Keeps ok a (logged ++ []) (told ++ []) (recent ++ []) _
    rw [List.append_nil, List.append_nil]
    exact .of_settled rfl hcompletions hanswers fun r hr => by simp at hr
  | @leave role v hd =>
    refine hk.of_quiet rfl ⟨rfl, rfl, rfl, rfl⟩ ?_ rfl
    cases role <;> simp [Thread.draining, hd, afterLoop]
  | seize hm hd =>
    refine hk.of_quiet hm ⟨rfl, rfl, rfl, rfl⟩ ?_ rfl
    rcases hd with hd | hd <;> simp [Thread.draining, hd]
  | @enter role hd | @take role hd | @sleep role hd | @stir role hd | @wake role hd
  | @work role _ _ _ _ hd | @finish role _ hd | @report role _ hd | @announce role hd =>
    refine hk.of_quiet rfl ⟨rfl, rfl, rfl, rfl⟩ ?_ rfl
    cases role <;> simp [Thread.draining, hd]
  | push hd | reset hd | knock hd | rouseAll hd | rouseOne hd | quit hd | drain hd =>
    exact hk.of_quiet rfl ⟨rfl, rfl, rfl, rfl⟩ (by simp [Thread.draining, hd]) rfl

/-! ## A run -/

theorem Run.submitted_since (hv : p.Vacant) (hr : Run p h q)
    (hround : (q.thread t).round ≠ none) :
    jobsSubmitted (sinceDrain t h) = jobsAdded (sinceDrain t h) ++ q.unadded := by
  refine Run.since_induct (C := fun k q => jobsSubmitted k = jobsAdded k ++ q.unadded)
    begins_startsAfresh hv (fun {q} hq => ?_) (fun {k p q u m es} hp _ ih ht _ => ?_)
      hr hround
  · have hnone : q.unadded = [] := by
      rw [hq.sound.unadded_of_slot (.inr hq.slot)]
      rcases hq.duty with hd | ⟨unwinding, hd⟩ <;> simp [Thread.unadded, hd]
    rw [hnone]
    rfl
  · have hstep := ht.submitted hp
    rw [jobsSubmitted, List.flatMap_append, ← jobsSubmitted, ih]
    simp only [jobsAdded, collect_append, collect_singleton, List.flatMap_singleton]
    rw [List.append_assoc, hstep, List.append_assoc]

/-- The jobs that ended in this part of a history are each good or not as `ok` says. -/
def Follows (ok : J → Bool) (h : List (Moment J E)) : Prop :=
  ∀ j ∈ jobsEnded h, j.2.outcome = ok j.1

theorem Follows.of_append (hf : Follows ok (h ++ k)) : Follows ok h ∧ Follows ok k := by
  simp only [Follows, jobsEnded, collect_append, List.mem_append] at hf ⊢
  exact ⟨fun j hj => hf j (.inl hj), fun j hj => hf j (.inr hj)⟩

theorem Follows.since (hf : Follows ok h) (marks : Event J E → Bool) (t : Nat) :
    Follows ok (since marks t h) := by
  obtain ⟨k, hk⟩ :=
    List.rtakeWhile_suffix (fun m => !(m.thread == t && m.events.any marks)) h
  rw [← hk] at hf
  exact hf.of_append.2

/-- The verdict that is about to be noted is the one on the jobs handed over since the
last drain. -/
theorem Run.verdict_of_completing (hv : p.Vacant) (hr : Run p h q) (hf : Follows ok h)
    {v : Bool} {why : Occasion} (hd : (q.thread t).duty = .completing v why) :
    v = (jobsSubmitted (sinceDrain t h)).all ok := by
  have hq := Run.sound hv.sound hr
  have hund := hq.threads t
  simp only [Thread.Sound, hd] at hund
  have hst := (hq.slot t).1 hund.hasSlot
  have hround : (q.thread t).round ≠ none := by
    obtain ⟨r, hr, _⟩ := hund
    simp [hr]
  have hnone : q.unadded = [] := by
    rw [hq.unadded_of_slot (.inr hst)]
    simp [Thread.unadded, hd]
  have hperm := (Run.weighed_since begins_startsAfresh hv hr hround).perm_ended
    (hq.blank hst (by simp [Thread.AtRest, hd]))
  calc v = allGood (jobsEnded (sinceDrain t h)) :=
      (Run.tallied_since hv hr hround).verdict_eq hq hd
    _ = ((jobsEnded (sinceDrain t h)).map Prod.fst).all ok := by
      rw [List.all_map, allGood, Bool.eq_iff_iff, List.all_eq_true, List.all_eq_true]
      refine forall₂_congr fun j hj => ?_
      rw [Function.comp_apply, hf.since _ _ j hj]
    _ = (jobsAdded (sinceDrain t h)).all ok := hperm.all_eq
    _ = (jobsSubmitted (sinceDrain t h)).all ok := by
      rw [Run.submitted_since hv hr hround, hnone, List.append_nil]

theorem sinceDrain_concat (t u : Nat) (h : List (Moment J E)) (m : Move J E)
    (es : List (Event J E)) :
    jobsSubmitted (sinceDrain t (h ++ [⟨u, m, es⟩])) =
      if u = t ∧ es.any Event.startsAfresh = true then []
      else jobsSubmitted (sinceDrain t h) ++ m.submitted := by
  split
  · rename_i hmark
    rw [sinceDrain, hmark.1, since_concat_of_marked hmark.2]
    rfl
  · rename_i hmark
    rw [sinceDrain, since_concat_of_not_marked fun hu => by simpa [hu] using hmark]
    simp [jobsSubmitted, sinceDrain]

/-- On every schedule, the books on the rounds of a pool are ahead of its history by
just what the opener of the round is about to log and answer. -/
theorem Run.keeps (hv : p.Vacant) (hr : Run p h q) (hf : Follows ok h) (t : Nat)
    (ht : q.slot = none ∨ q.slot = some t) :
    Keeps ok (account ok (roundCalls h)) (completions h) (answers h)
      (jobsSubmitted (sinceDrain t h))
      (q.thread t) := by
  have books : ∀ (k : List (Moment J E)) u m es,
      account ok (roundCalls (k ++ [⟨u, m, es⟩])) =
      (m.calls ++ es.flatMap Event.openings).foldl (Account.call ok)
        (account ok (roundCalls k)) := by
    intro k u m es
    rw [roundCalls, List.flatMap_append, account_append, ← roundCalls,
      List.flatMap_singleton, Moment.calls]
  apply Run.opener_induct (p := p) (C := fun t k th => Follows ok k →
    Keeps ok (account ok (roundCalls k)) (completions k) (answers k)
      (jobsSubmitted (sinceDrain t k)) th)
    hv _ _ _ _ _ _ hr t ht hf
  · intro t _
    have hnone := hv.noRound t
    exact .of_settled ((hv.sound.threads t).draining_eq_none hnone) rfl rfl fun r hr => by
      simp [hnone] at hr
  · intro t k th
    have hd := Thread.draining_roused th
    have hr := Thread.round_roused th
    exact ⟨fun hk hf => (hk hf).congr hd.symm hr.symm, fun hk hf => (hk hf).congr hd hr⟩
  · intro t k
    exact ⟨fun hk hf => (hk hf).congr rfl rfl, fun hk hf => (hk hf).congr rfl rfl⟩
  · intro k x t m o hx hk hs hf
    have hfirst := hf.of_append.1
    have hstep := hs.keeps ((hx.sound hv.sound).threads t)
      (fun v why hd => Run.verdict_of_completing hv hx hfirst hd) (hk hfirst)
    rw [books, sinceDrain_concat]
    simpa [completions, answers] using hstep
  · intro k x t u m o hx hu hk hs hn hf
    -- The step is made beside the round, of which it shows nothing.
    obtain ⟨hm, hnothing⟩ := hs.calls_eq_nil hn
    have hstep := (hk hf.of_append.1).of_quiet hm hnothing rfl rfl
    rw [books, sinceDrain_concat]
    simpa [completions, answers, hu, hnothing.2.2.2] using hstep
  · intro k t u th th' hk hs hr hs' hr' hf
    exact (hk hf).of_noRound hs hr hs' hr' _

/-! ## What the calls come to -/

theorem Run.account_of_vacant (hv : p.Vacant) (hr : Run p h q) (hf : Follows ok h)
    (hq : q.Vacant) :
    completions h = (account ok (roundCalls h)).completions ∧
      answers h = (account ok (roundCalls h)).answers := by
  obtain ⟨t, ht⟩ : ∃ t, q.slot = none ∨ q.slot = some t := by
    cases q.slot with
    | none => exact ⟨0, .inl rfl⟩
    | some t => exact ⟨t, .inr rfl⟩
  obtain ⟨hcompletions, hanswers, _⟩ := (Run.keeps hv hr hf t ht).settled
    ((hq.sound.threads t).draining_eq_none (hq.noRound t))
  exact ⟨hcompletions.symm, hanswers.symm⟩

def RoundCall.jobs : RoundCall J → List J
  | .add jobs => jobs
  | _ => []

theorem Move.submitted_eq (m : Move J E) :
    m.submitted = m.calls.flatMap RoundCall.jobs := by
  cases m with
  | add jobs => cases jobs <;> simp [submitted, calls, RoundCall.jobs]
  | _ => rfl

theorem Event.jobs_of_openings (e : Event J E) :
    e.openings.flatMap RoundCall.jobs = [] := by
  cases e <;> rfl

theorem jobsSubmitted_eq (h : List (Moment J E)) :
    jobsSubmitted h = (roundCalls h).flatMap RoundCall.jobs := by
  rw [jobsSubmitted, roundCalls, List.flatMap_assoc]
  congr 1
  funext m
  have hnone : (m.events.flatMap Event.openings).flatMap RoundCall.jobs = [] := by
    rw [List.flatMap_assoc]
    exact List.flatMap_eq_nil_iff.2 fun e _ => e.jobs_of_openings
  rw [Moment.calls, List.flatMap_append, hnone, List.append_nil, Move.submitted_eq]

theorem Pool.Vacant.unadded_eq_nil (hv : p.Vacant) : p.unadded = [] := by
  unfold Pool.unadded
  split
  · rename_i t _
    have hs := hv.sound.threads t
    unfold Thread.unadded
    split
    · rename_i hd
      simp only [Thread.Sound, hd] at hs
      obtain ⟨_, r, hr, _⟩ := hs
      simp [hv.noRound t] at hr
    · rfl
  · rfl

theorem Run.jobsAdded_of_vacant (hv : p.Vacant) (hr : Run p h q) (hq : q.Vacant) :
    jobsAdded h = (roundCalls h).flatMap RoundCall.jobs := by
  have hsubmitted := Run.submitted hv.sound hr
  rw [hv.unadded_eq_nil, hq.unadded_eq_nil, List.nil_append,
    List.append_nil] at hsubmitted
  rw [← hsubmitted, jobsSubmitted_eq]

/-! ## The count of the rounds -/

/-- The thread has drained its round and not logged it. -/
def Thread.unlogged (th : Thread J) : Nat :=
  match th.duty with
  | .looping (.owner _) (.leaving _) => 1
  | .completing _ _ => 1
  | _ => 0

theorem Thread.steady_unlogged : Steady (J := J) Thread.unlogged where
  idle := rfl
  newborn := rfl
  roused := apply_roused fun th role hd => by cases role <;> simp [unlogged, hd]

theorem Shift.roundsCompleted {l : Ledger J} {s : Option Nat} (h : Shift t l s th m o) :
    o.ledger.roundsCompleted + th.unlogged =
      l.roundsCompleted + (o.events.flatMap Event.completions).length +
        o.thread.unlogged := by
  cases h with
  | still _ hc => simp [completions_of_clerical hc]
  | clerical _ _ _ hc =>
    rw [completions_of_clerical hc]
    rfl
  | configure | flag | spawn | retell => rfl
  | alarm =>
    have hsame : th.roused.unlogged = th.unlogged := Thread.steady_unlogged.roused th
    rw [← hsame]
    rfl
  | seize _ hd =>
    have hin : th.unlogged = 0 := by rcases hd with hd | hd <;> simp [Thread.unlogged, hd]
    rw [hin]
    rfl
  | drain hd =>
    have hin : th.unlogged = 0 := by simp [Thread.unlogged, hd]
    rw [hin]
    rfl
  | answer hd | conclude hd =>
    have hin : th.unlogged = 1 := by simp [Thread.unlogged, hd]
    rw [hin]
    rfl
  | @report role tally hd =>
    have hin : th.unlogged = 0 := by cases role <;> simp [Thread.unlogged, hd]
    have hout : (th.withDuty (.looping role
        (if (l.report tally).todo = 0 then .rousing else .taking))).unlogged = 0 := by
      split <;> cases role <;> rfl
    rw [hin, hout]
    rfl
  | @leave role v hd => cases role <;> simp [Thread.unlogged, hd, afterLoop, Ledger.leave]
  | @enter role hd | @take role hd | @sleep role hd | @stir role hd | @wake role hd
  | @work role _ _ _ _ hd | @finish role _ hd | @announce role hd =>
    have hin : th.unlogged = 0 := by cases role <;> simp [Thread.unlogged, hd]
    rw [hin]
    cases role <;> rfl
  | opened hd | submit hd | push hd | reset hd | knock hd | rouseAll hd | rouseOne hd
  | engage hd | dismiss hd | release hd | quit hd =>
    have hin : th.unlogged = 0 := by simp [Thread.unlogged, hd]
    rw [hin]
    rfl

theorem Run.roundsCompleted (hp : p.Sound) (hr : Run p h q) :
    q.ledger.roundsCompleted + total Thread.unlogged p.threads =
      p.ledger.roundsCompleted + (completions h).length +
        total Thread.unlogged q.threads := by
  refine Run.induct
    (C := fun h q => q.ledger.roundsCompleted + total Thread.unlogged p.threads =
    p.ledger.roundsCompleted + (completions h).length + total Thread.unlogged q.threads)
      hp rfl ?_ hr
  intro h p t m q es _ ih ht
  obtain ⟨o, hs, ht⟩ := ht
  have hstep := hs.roundsCompleted
  have hthreads := ht.total_threads Thread.steady_unlogged
  simp only [completions, collect_append, collect_singleton, List.length_append] at ih ⊢
  rw [ht.events, ht.ledger]
  omega

theorem Pool.Vacant.total_unlogged (hv : p.Vacant) :
    total Thread.unlogged p.threads = 0 := by
  apply total_eq_zero
  intro th hth
  obtain ⟨u, rfl⟩ := exists_thread_of_mem hth
  have hnone := (hv.sound.threads u).draining_eq_none (hv.noRound u)
  unfold Thread.unlogged
  split
  · rename_i hd
    simp [Thread.draining, hd] at hnone
  · rename_i hd
    simp [Thread.draining, hd] at hnone
  · rfl

theorem Run.roundsCompleted_of_vacant (hv : p.Vacant) (hr : Run p h q) (hq : q.Vacant) :
    q.ledger.roundsCompleted = p.ledger.roundsCompleted + (completions h).length := by
  have hcount := Run.roundsCompleted hv.sound hr
  rw [hv.total_unlogged, hq.total_unlogged] at hcount
  omega

end CheckRounds
