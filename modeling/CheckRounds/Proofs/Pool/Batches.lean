import CheckRounds.Proofs.Pool.Flow
import Mathlib.Algebra.GroupWithZero.Nat
/-!
The batches of one thread, as a history shows them.

A thread reports its batches in the order in which it took them, each in full. It has at
most one batch that it has not reported, which is the one it carries out
(`Reached.map_length_unreported`).
-/

namespace CheckRounds

open Pool

variable {J E : Type} {n t u : Nat} {h : List (Moment J E)} {m : Move J E}
  {es : List (Event J E)} {p q : Pool J} {o : Upshot J E}

/-! ## What concerns one thread only -/

/-- What a thread and its own part of the history have to do with each other is kept by
the steps of others, if it does not depend on whether the thread was roused or has just
started. -/
theorem Turns.own {D : List (Moment J E) → Thread J → Prop}
    (roused : ∀ k th, D k th.roused ↔ D k th)
    (newborn : ∀ k, D k { duty := .looping .worker .entering } ↔ D k {})
    (own : ∀ {k l s th m o}, D k th → Shift u l s th m o →
      D (k ++ [⟨u, m, o.events⟩]) o.thread)
    (ht : Turns p t m q es) (ih : D (ofThread u h) (p.thread u)) :
    D (ofThread u (h ++ [⟨t, m, es⟩])) (q.thread u) := by
  obtain ⟨o, hs, ht⟩ := ht
  rw [ofThread_append, ofThread_singleton]
  by_cases hu : u = t
  · subst hu
    rw [if_pos rfl, ht.events, ht.self]
    exact own ih hs
  · rw [if_neg (Ne.symm hu), List.append_nil]
    exact (ht.same_iff (roused _) (newborn _) hu).2 ih

/-- What holds of a thread that did nothing, and is kept by its own steps, by being
roused and by starting as a worker, holds of each thread and its own part of the
history. -/
theorem Reached.own_induct {D : List (Moment J E) → Thread J → Prop} (start : D [] {})
    (roused : ∀ k th, D k th.roused ↔ D k th)
    (newborn : ∀ k, D k { duty := .looping .worker .entering } ↔ D k {})
    (own : ∀ {k l s th m o}, D k th → Shift u l s th m o →
      D (k ++ [⟨u, m, o.events⟩]) o.thread)
    (hr : Reached n h p) : D (ofThread u h) (p.thread u) :=
  hr.induct (C := fun h p => D (ofThread u h) (p.thread u)) start
    fun _ ih ht => ht.own roused newborn own ih

/-! ## Batches and reports -/

namespace Event

def batches : Event J E → List (List J)
  | .took _ batch => [batch]
  | _ => []

def tallies : Event J E → List Tally
  | .reported tally => [tally]
  | _ => []

end Event

/-- The batches that `u` took, in their order. -/
def batchesOf (u : Nat) (h : List (Moment J E)) : List (List J) :=
  collect Event.batches (ofThread u h)

def talliesOf (u : Nat) (h : List (Moment J E)) : List Tally :=
  collect Event.tallies (ofThread u h)

/-- The batches that `u` took and has not reported. It reports one after another, so
these are the last ones. -/
def unreported (u : Nat) (h : List (Moment J E)) : List (List J) :=
  (batchesOf u h).drop (talliesOf u h).length

namespace Thread

/-- The size of the batch that the thread has yet to report, if it has one. -/
def load (th : Thread J) : List Nat :=
  match th.duty with
  | .looping _ (.executing x) => [x.size]
  | .looping _ (.reporting tally) => [tally.executed]
  | _ => []

theorem sum_load (th : Thread J) : th.load.sum = th.inFlight := by
  unfold load inFlight
  split <;> simp_all

theorem load_roused (th : Thread J) : th.roused.load = th.load :=
  apply_roused (fun th role hd => by simp [load, hd]) th

theorem load_eq_nil_of_inFlight {th : Thread J} (h : th.Sound) (hf : th.inFlight = 0) :
    th.load = [] := by
  unfold load
  split
  · rename_i role x hd
    exact absurd rfl ((h.stage_of_inFlight hf hd).1 x)
  · rename_i role tally hd
    exact absurd rfl ((h.stage_of_inFlight hf hd).2 tally)
  · rfl

end Thread

theorem batches_of_clerical {es : List (Event J E)} (h : ∀ e ∈ es, e.clerical = true) :
    es.flatMap Event.batches = [] :=
  flatMap_of_clerical h fun e he => by
    cases e with
    | took => cases he
    | _ => rfl

theorem tallies_of_clerical {es : List (Event J E)} (h : ∀ e ∈ es, e.clerical = true) :
    es.flatMap Event.tallies = [] :=
  flatMap_of_clerical h fun e he => by
    cases e with
    | reported => cases he
    | _ => rfl

theorem Shift.of_took {l : Ledger J} {s : Option Nat} {th : Thread J}
    (h : Shift t l s th m o) {role : Role} {batch : List J}
    (he : .took role batch ∈ o.events) :
    th.duty = .looping role .taking ∧ (role = .worker → l.shuttingDown = false) ∧
      batch = l.batch ∧ o.ledger = l.take := by
  cases h with
  | still _ hc | clerical _ _ _ hc => exact absurd (hc _ he) (by simp [Event.clerical])
  | take hd stays =>
    simp only [List.mem_singleton, Event.took.injEq] at he
    obtain ⟨rfl, rfl⟩ := he
    exact ⟨hd, stays, rfl, rfl⟩
  | _ => simp at he

/-- What a step takes becomes the load of the thread, and what it reports was the load. -/
theorem Shift.load {l : Ledger J} {s : Option Nat} {th : Thread J}
    (h : Shift t l s th m o) :
    th.load ++ (o.events.flatMap Event.batches).map List.length =
      (o.events.flatMap Event.tallies).map Tally.executed ++ o.thread.load := by
  cases h with
  | still _ hc => simp [batches_of_clerical hc, tallies_of_clerical hc]
  | clerical _ _ _ hc =>
    rw [batches_of_clerical hc, tallies_of_clerical hc, List.map_nil, List.append_nil]
    rfl
  | configure | flag | spawn | retell => simp [Event.batches, Event.tallies, Thread.load]
  | alarm =>
    have hsame : (th.roused.withCall (some (.stopping .collecting))).load = th.load :=
      Thread.load_roused th
    simp [Event.batches, Event.tallies, hsame]
  | take hd => simp [Event.batches, Event.tallies, Thread.load, hd]
  | work hd hx =>
    have hsize := Execution.size_step hx
    simp [Event.batches, Event.tallies, Thread.load, hd, hsize]
  | finish hd hx =>
    simp [Event.batches, Event.tallies, Thread.load, hd, Execution.size,
      Execution.unfinished_of_finished hx]
  | @report role tally hd =>
    by_cases hz : l.todo - tally.executed = 0 <;>
      simp [Event.batches, Event.tallies, Thread.load, hd, hz]
  | @leave role v hd => cases role <;> simp [Thread.load, hd, afterLoop]
  | seize _ hd => rcases hd with hd | hd <;> simp [Thread.load, hd]
  | opened hd | submit hd | push hd | answer hd | conclude hd | reset hd | release hd
  | knock hd | rouseAll hd | rouseOne hd | engage hd | dismiss hd | enter hd | quit hd
  | drain hd | sleep hd | stir hd | wake hd | announce hd =>
    simp [Event.batches, Event.tallies, Thread.load, hd]

/-- Each report of a thread counts the jobs of one of its batches, in the order of the
batches; only what it has yet to report is left over. -/
theorem Reached.map_length_batchesOf (hr : Reached n h p) (u : Nat) :
    (batchesOf u h).map List.length =
      (talliesOf u h).map Tally.executed ++ (p.thread u).load := by
  refine hr.own_induct (D := fun k th => (collect Event.batches k).map List.length =
    (collect Event.tallies k).map Tally.executed ++ th.load) rfl ?_ (fun _ => Iff.rfl) ?_
  · intro k th
    rw [Thread.load_roused]
  · intro k l s th m o hk hs
    rw [collect_append, collect_append, collect_singleton, collect_singleton,
      List.map_append, List.map_append, hk, List.append_assoc, hs.load, List.append_assoc]

theorem Reached.map_length_unreported (hr : Reached n h p) (u : Nat) :
    (unreported u h).map List.length = (p.thread u).load := by
  rw [unreported, List.map_drop, hr.map_length_batchesOf u]
  exact List.drop_left' (by simp)

theorem Reached.unreported_eq_nil_iff (hr : Reached n h p) (u : Nat) :
    unreported u h = [] ↔ (p.thread u).inFlight = 0 := by
  rw [← List.map_eq_nil_iff (f := List.length), hr.map_length_unreported u]
  constructor
  · intro hload
    rw [← Thread.sum_load, hload]
    rfl
  · exact Thread.load_eq_nil_of_inFlight (hr.sound.threads u)

end CheckRounds
