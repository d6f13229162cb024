import CheckRounds.Proofs.Pool.Flow
import Mathlib.Data.List.DropRight
/-!
What happened since a round was opened, or since it was last drained.

At both points nothing is under way (`Pool.Blank`), so what a history shows from there
on concerns only the jobs that were added from there on. `Reached.since_induct` carries
a property of such a part of a history from its beginning to the present.
-/

namespace CheckRounds

open Pool

variable {J E : Type}

namespace Event

def opensRound : Event J E → Bool
  | .opened => true
  | _ => false

def startsAfresh : Event J E → Bool
  | .opened => true
  | .completed _ _ => true
  | _ => false

theorem startsAfresh_of_opensRound {e : Event J E} (h : e.opensRound = true) :
    e.startsAfresh = true := by
  cases e with
  | opened => rfl
  | _ => cases h

theorem not_startsAfresh_of_clerical {e : Event J E} (h : e.clerical = true) :
    e.startsAfresh = false := by
  cases e with
  | opened | completed => cases h
  | _ => rfl

end Event

/-- These events begin a part of a history: all openings of rounds do, and nothing does
but openings and drains. -/
structure Begins (marks : Event J E → Bool) : Prop where
  opening : ∀ e, e.opensRound = true → marks e = true
  afresh : ∀ e, marks e = true → e.startsAfresh = true

theorem begins_opensRound : Begins (Event.opensRound (J := J) (E := E)) where
  opening _ h := h
  afresh _ h := Event.startsAfresh_of_opensRound h

theorem begins_startsAfresh : Begins (Event.startsAfresh (J := J) (E := E)) where
  opening _ h := Event.startsAfresh_of_opensRound h
  afresh _ h := h

/-- The part of a history after the last moment of thread `t` with such an event. -/
def since (marks : Event J E → Bool) (t : Nat) (h : List (Moment J E)) :
    List (Moment J E) :=
  h.rtakeWhile fun m => !(m.thread == t && m.events.any marks)

def sinceOpening (t : Nat) (h : List (Moment J E)) : List (Moment J E) :=
  since Event.opensRound t h

/-- What happened since `t` last drained its round, or since it opened it. -/
def sinceDrain (t : Nat) (h : List (Moment J E)) : List (Moment J E) :=
  since Event.startsAfresh t h

variable {marks : Event J E → Bool} {n t u : Nat} {h : List (Moment J E)} {m : Move J E}
  {es : List (Event J E)} {p q : Pool J} {o : Upshot J E}

theorem since_concat_of_marked (hm : es.any marks = true) :
    since marks t (h ++ [⟨t, m, es⟩]) = [] :=
  List.rtakeWhile_concat_neg _ _ _ (by simp [hm])

theorem since_concat_of_not_marked (hm : u = t → es.any marks = false) :
    since marks t (h ++ [⟨u, m, es⟩]) = since marks t h ++ [⟨u, m, es⟩] := by
  refine List.rtakeWhile_concat_pos _ _ _ ?_
  by_cases hu : u = t
  · simp [hm hu]
  · simp [hu]

/-! ## With nothing under way -/

/-- Nothing waits, nothing is under way, and no failure is on record. -/
structure Pool.Blank (p : Pool J) : Prop where
  pending : p.ledger.pending = []
  allOk : p.ledger.allOk = true
  inFlight : ∀ u, (p.thread u).inFlight = 0

theorem Pool.Blank.new (n : Nat) : (Pool.new n : Pool J).Blank := ⟨rfl, rfl, fun _ => rfl⟩

theorem Pool.Sound.blank_of_drained (h : p.Sound)
    (hd : p.ledger.todo = 0 ∧ p.ledger.allOk = true) : p.Blank := by
  have htodo := h.todo
  refine ⟨List.eq_nil_of_length_eq_zero (by omega), hd.2, fun u => ?_⟩
  have hu := thread_le_total (p := p) Thread.steady_inFlight.idle u
  omega

theorem Pool.Sound.drained (h : p.Sound) (hs : p.slot = some t)
    (ht : (p.thread t).AtRest) :
    p.ledger.todo = 0 ∧ p.ledger.allOk = true := by
  refine h.rest ?_
  intro u hu
  rw [hs, Option.some.injEq] at hu
  rwa [← hu]

theorem Pool.Sound.blank (h : p.Sound) (hs : p.slot = some t) (ht : (p.thread t).AtRest) :
    p.Blank :=
  h.blank_of_drained (h.drained hs ht)

/-- No thread has a round open. -/
structure Pool.Vacant (p : Pool J) : Prop where
  sound : p.Sound
  noRound : ∀ u, (p.thread u).round = none

theorem Pool.Vacant.new (n : Nat) : (Pool.new n : Pool J).Vacant := ⟨.new n, fun _ => rfl⟩

/-- A thread that has the slot, but no round yet, is at rest. -/
theorem Thread.HasSlot.atRest {th : Thread J} (h : th.HasSlot) (hr : th.round = none) :
    th.AtRest := by
  rcases h with h | h | h
  · exact absurd hr h
  · simp [AtRest, h]
  · simp [AtRest, h]

theorem Pool.Vacant.drained (hv : p.Vacant) :
    p.ledger.todo = 0 ∧ p.ledger.allOk = true := by
  refine hv.sound.rest ?_
  intro u hu
  exact ((hv.sound.slot u).2 hu).atRest (hv.noRound u)

theorem Pool.Vacant.blank (hv : p.Vacant) : p.Blank :=
  hv.sound.blank_of_drained hv.drained

/-- The state right after `t` opened a round, or drained it. -/
structure Pool.Afresh (p : Pool J) (t : Nat) : Prop where
  sound : p.Sound
  slot : p.slot = some t
  blank : p.Blank
  duty : (p.thread t).duty = .client ∨
    ∃ unwinding, (p.thread t).duty = .releasing unwinding

/-- Who opens a round or notes its verdict has the slot and is at rest; the ledger and
the slot stay as they are. -/
theorem Shift.of_startsAfresh {l : Ledger J} {s : Option Nat} {th : Thread J}
    (h : Shift t l s th m o) (he : o.events.any Event.startsAfresh = true) :
    th.HasSlot ∧ th.AtRest ∧ o.ledger = l ∧ o.slot = s ∧
      (o.thread.duty = .client ∨ ∃ unwinding, o.thread.duty = .releasing unwinding) := by
  cases h with
  | still _ hc | clerical _ _ _ hc =>
    obtain ⟨e, hmem, hfresh⟩ := List.any_eq_true.1 he
    rw [Event.not_startsAfresh_of_clerical (hc e hmem)] at hfresh
    cases hfresh
  | opened hd => exact ⟨.inr (.inr hd), by simp [Thread.AtRest, hd], rfl, rfl, .inl rfl⟩
  | answer hd hr =>
    exact ⟨.inl (by simp [hr]), by simp [Thread.AtRest, hd], rfl, rfl, .inl rfl⟩
  | conclude hd hr =>
    exact ⟨.inl (by simp [hr]), by simp [Thread.AtRest, hd], rfl, rfl, .inr ⟨_, rfl⟩⟩
  | _ => simp [Event.startsAfresh] at he

theorem Turns.afresh (hs : Turns p t m q es) (hp : p.Sound)
    (he : es.any Event.startsAfresh = true) : q.Afresh t := by
  have hq := hp.turn hs
  obtain ⟨o, hs, ht⟩ := hs
  rw [ht.events] at he
  obtain ⟨hslot, hrest, hl, hsl, hd⟩ := hs.of_startsAfresh he
  have hst := (hp.slot t).1 hslot
  refine ⟨hq, ?_, hq.blank_of_drained ?_, ?_⟩
  · rw [ht.slot, hsl, hst]
  · rw [ht.ledger, hl]
    exact hp.drained hst hrest
  · rw [ht.self]
    exact hd

/-! ## From the beginning of a part to the present -/

theorem Shift.round_ne_none {l : Ledger J} {s : Option Nat} {th : Thread J}
    (h : Shift t l s th m o) (hr : o.thread.round ≠ none)
    (he : o.events.any Event.opensRound = false) :
    th.round ≠ none := by
  cases h with
  | opened => simp [Event.opensRound] at he
  | submit _ hround | answer _ hround | conclude _ hround => simp [hround]
  | release => exact absurd rfl hr
  | alarm => simpa using hr
  | _ => exact hr

theorem Turns.round_ne_none (hs : Turns p u m q es) (hr : (q.thread t).round ≠ none)
    (he : u = t → es.any Event.opensRound = false) : (p.thread t).round ≠ none := by
  obtain ⟨o, hs, ht⟩ := hs
  by_cases hu : t = u
  · subst hu
    rw [ht.self] at hr
    refine hs.round_ne_none hr ?_
    rw [← ht.events]
    exact he rfl
  · rwa [ht.same (f := Thread.round) Thread.round_roused rfl hu] at hr

/-- What holds where a part of a history begins, and is kept by every step that does not
begin another one, holds of the part that leads to the present. The history itself
begins where no round is open. -/
theorem Run.since_induct {C : List (Moment J E) → Pool J → Prop} (hm : Begins marks)
    (hv : p.Vacant) (start : ∀ {q}, q.Afresh t → C [] q)
    (next : ∀ {k p q u m es}, p.Sound → p.slot = some t → C k p → Turns p u m q es →
      (u = t → es.any marks = false) → C (k ++ [⟨u, m, es⟩]) q)
    (hr : Run p h q) (hround : (q.thread t).round ≠ none) : C (since marks t h) q := by
  have hboth : (q.thread t).round ≠ none → C (since marks t h) q := by
    refine Run.induct (C := fun h q => (q.thread t).round ≠ none →
      C (since marks t h) q) hv.sound
      (fun hsome => absurd (hv.noRound t) hsome)
        (fun {h p u m q es} hp ih ht hround => ?_) hr
    by_cases hmark : u = t ∧ es.any marks = true
    · -- The part begins anew, and nothing is under way.
      obtain ⟨rfl, hmark⟩ := hmark
      rw [since_concat_of_marked hmark]
      obtain ⟨e, hmem, he⟩ := List.any_eq_true.1 hmark
      exact start (ht.afresh hp (List.any_eq_true.2 ⟨e, hmem, hm.afresh e he⟩))
    · -- The part grows; `t` had its round before, since it did not open one.
      have hnot : u = t → es.any marks = false := fun hu => by simpa [hu] using hmark
      rw [since_concat_of_not_marked hnot]
      have hbefore : (p.thread t).round ≠ none := by
        refine ht.round_ne_none hround fun hu => List.any_eq_false.2 fun e he hop => ?_
        exact List.any_eq_false.1 (hnot hu) e he (hm.opening e hop)
      exact next hp ((hp.slot t).1 (.inl hbefore)) (ih hbefore) ht hnot
  exact hboth hround

theorem Shift.addedJobs {l : Ledger J} {s : Option Nat} {th : Thread J}
    (h : Shift t l s th m o) (hs : th.Sound) (hn : ¬ th.HasSlot) :
    o.events.flatMap Event.addedJobs = [] := by
  cases h with
  | still _ hc | clerical _ _ _ hc => exact addedJobs_of_clerical hc
  | push hd =>
    simp only [Thread.Sound, hd] at hs
    exact absurd hs.2.hasSlot hn
  | _ => rfl

/-- All that was added since `t` opened its round was added by `t`. -/
theorem Run.addedJobs_since (hm : Begins marks) (hv : p.Vacant) (hr : Run p h q)
    (hround : (q.thread t).round ≠ none) :
    jobsAdded (ofThread t (since marks t h)) = jobsAdded (since marks t h) := by
  refine Run.since_induct (C := fun k _ => jobsAdded (ofThread t k) = jobsAdded k) hm hv
    (fun _ => rfl) (fun {k p q u m es} hp hst ih ht _ => ?_) hr hround
  unfold jobsAdded at ih ⊢
  rw [ofThread_append, collect_append, collect_append, ih, ofThread_singleton]
  by_cases hu : u = t
  · simp [hu]
  · obtain ⟨o, hs, ht⟩ := ht
    have hnone : es.flatMap Event.addedJobs = [] := by
      rw [ht.events]
      exact hs.addedJobs (hp.threads u) fun hslot => hu (hp.eq_of_hasSlot hst hslot)
    simp [hu, hnone]

theorem Reached.addedJobs_since (hm : Begins marks) (hr : Reached n h p)
    (hround : (p.thread t).round ≠ none) :
    jobsAdded (ofThread t (since marks t h)) = jobsAdded (since marks t h) :=
  Run.addedJobs_since hm (.new n) hr hround

/-! ## All jobs are accounted for -/

theorem Pool.Blank.uncalled (hb : p.Blank) (f : J → Nat) :
    total (fun th => total f th.uncalled) p.threads = 0 := by
  apply total_eq_zero
  intro th hth
  obtain ⟨u, rfl⟩ := exists_thread_of_mem hth
  rw [Thread.uncalled_of_inFlight (hb.inFlight u)]
  rfl

theorem Pool.Blank.unended (hb : p.Blank) (f : J → Nat) :
    total (fun th => total f th.unended) p.threads = 0 := by
  apply total_eq_zero
  intro th hth
  obtain ⟨u, rfl⟩ := exists_thread_of_mem hth
  rw [Thread.unended_of_inFlight (hb.inFlight u)]
  rfl

theorem Weighed.of_blank (hb : p.Blank) : Weighed ([] : List (Moment J E)) p where
  called f := by
    rw [hb.pending, hb.uncalled]
    rfl
  ended f := by
    rw [hb.pending, hb.unended]
    rfl

theorem Weighed.perm_called (hw : Weighed h p) (hb : p.Blank) :
    (jobsCalled h).Perm (jobsAdded h) := by
  apply perm_of_total
  intro f
  rw [← hw.called f, hb.pending, hb.uncalled]
  rfl

theorem Weighed.total_ended (hw : Weighed h p) (hb : p.Blank) (f : J → Nat) :
    total f ((jobsEnded h).map Prod.fst) = total f (jobsAdded h) := by
  rw [← hw.ended f, hb.pending, hb.unended]
  rfl

theorem Weighed.perm_ended (hw : Weighed h p) (hb : p.Blank) :
    ((jobsEnded h).map Prod.fst).Perm (jobsAdded h) := perm_of_total (hw.total_ended hb)

theorem Run.weighed (hp : p.Sound) (hb : p.Blank) (hr : Run p h q) : Weighed h q :=
  Run.induct hp (.of_blank hb) (fun _ hw ht => hw.turn ht) hr

theorem Reached.weighed (hr : Reached n h p) : Weighed h p :=
  Run.weighed (.new n) (.new n) hr

theorem Run.weighed_since (hm : Begins marks) (hv : p.Vacant) (hr : Run p h q)
    (hround : (q.thread t).round ≠ none) : Weighed (since marks t h) q :=
  Run.since_induct hm hv (fun hq => .of_blank hq.blank) (fun _ _ hw ht _ => hw.turn ht)
    hr hround

theorem Reached.weighed_since (hm : Begins marks) (hr : Reached n h p)
    (hround : (p.thread t).round ≠ none) : Weighed (since marks t h) p :=
  Run.weighed_since hm (.new n) hr hround

end CheckRounds
