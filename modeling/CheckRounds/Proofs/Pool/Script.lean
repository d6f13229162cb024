import CheckRounds.Proofs.Pool.Trace
/-!
A pool that nobody else uses carries out every script.

A script is a list of additions and waits. If its jobs do not crash at both points, one
thread alone can open a round on a new pool, follow the script and close the round
(`exists_run_alone`).
-/

namespace CheckRounds

open Pool

variable {J E : Type} {t : Nat} {h k : List (Moment J E)} {script : List (Move J E)}
  {fates : J → Fate}

/-- The move asks something of a round. -/
def Move.asks : Move J E → Bool
  | .add _ => true
  | .wait => true
  | .close _ => true
  | _ => false

/-- What was asked of rounds, additions of nothing included. -/
def asked (h : List (Moment J E)) : List (Move J E) :=
  (h.map Moment.move).filter Move.asks

theorem asked_append (h k : List (Moment J E)) : asked (h ++ k) = asked h ++ asked k := by
  simp [asked]

/-- This part of a history follows the script, within one round and without new
workers. -/
structure Performs (fates : J → Fate) (script : List (Move J E)) (h : List (Moment J E)) :
    Prop where
  asked : asked h = script
  calls : roundCalls h = script.flatMap Move.calls
  alone : workersSpawned h = []
  fated : Fated fates h

theorem Performs.nil : Performs fates [] ([] : List (Moment J E)) :=
  ⟨rfl, rfl, rfl, fun _ hm => by cases hm⟩

theorem Performs.append {script' : List (Move J E)} (hh : Performs fates script h)
    (hk : Performs fates script' k) : Performs fates (script ++ script') (h ++ k) where
  asked := by rw [asked_append, hh.asked, hk.asked]
  calls := by
    rw [List.flatMap_append, ← hh.calls, ← hk.calls, roundCalls, List.flatMap_append]; rfl
  alone := by
    have hh := hh.alone
    have hk := hk.alone
    simp only [workersSpawned, collect_append] at hh hk ⊢
    rw [hh, hk, List.append_nil]
  fated := fated_append.2 ⟨hh.fated, hk.fated⟩

/-- The moment at which `t` does this deed for the job that it carries out. -/
def worked (t : Nat) (s : Deed E × JobEvent J E) : Moment J E :=
  ⟨t, .work s.1, [.job s.2]⟩

theorem Performs.worked (t : Nat) {ss : List (Deed E × JobEvent J E)}
    (hs : ∀ s ∈ ss, s.2.Obeys fates) :
    Performs fates [] (ss.map (worked t)) := by
  induction ss with
  | nil => exact .nil
  | cons s ss ih =>
    have hfirst : Performs fates [] [CheckRounds.worked t s] :=
      ⟨rfl, rfl, rfl, fated_singleton.2 fun e he => by
        obtain rfl := List.mem_singleton.1 he
        exact hs s (by simp)⟩
    exact hfirst.append (ih fun s hm => hs s (by simp [hm]))

/-! ## A pool with one thread -/

namespace Pool

/-- A pool on which one thread has a round open, and nobody else did anything. -/
def alone (l : Ledger J) (d : Duty J) (r : Option Round) : Pool J :=
  { ledger := l, slot := some 0, threads := [{ duty := d, round := r }] }

/-- The one thread has nothing under way besides its round. -/
abbrev resting (l : Ledger J) (rd : Round) : Pool J := alone l .client (some rd)

/-- The one thread is in the work loop until its round is drained. -/
abbrev draining (l : Ledger J) (why : Occasion) (rd : Round) (stage : LoopStage J) :
    Pool J :=
  alone l (.looping (.owner why) stage) (some rd)

/-- The pool can get from the first state to the second one along the script. -/
def Leads (E : Type) (fates : J → Fate) (p : Pool J) (script : List (Move J E))
    (q : Pool J) : Prop :=
  ∃ k, Run p k q ∧ Performs fates script k

variable {p q r : Pool J} {script' : List (Move J E)} {l : Ledger J} {why : Occasion}
  {rd : Round}

theorem Leads.trans (h : Leads E fates p script q) (h' : Leads E fates q script' r) :
    Leads E fates p (script ++ script') r := by
  obtain ⟨k, hk, hperforms⟩ := h
  obtain ⟨k', hk', hperforms'⟩ := h'
  exact ⟨k ++ k', hk.trans hk', hperforms.append hperforms'⟩

theorem leads_of_play (ms : List (Nat × Move J E)) {k : List (Moment J E)}
    (h : p.play ms = some (q, k)) (hk : Performs fates script k) :
    Leads E fates p script q := ⟨k, .of_play h, hk⟩

/-- Who looks for work takes the lock first. -/
theorem leads_look {es : List (Event J E)}
    (h : DutyStep { draining l why rd .taking with ledgerLock := some 0 } 0
      (.looping (.owner why) .taking) .advance q es)
    (he : Performs fates [] [⟨0, .advance, []⟩, ⟨0, .advance, es⟩]) :
    Leads E fates (draining l why rd .taking) [] q :=
  ⟨_, ((Run.nil _).snoc rfl).snoc (h.step rfl rfl), he⟩

theorem leads_enter :
    Leads E fates (draining l why rd .entering) [] (draining l.enter why rd .taking) :=
  leads_of_play (onward 0 2) rfl ⟨rfl, rfl, rfl, by simp [Fated]⟩

theorem leads_drained (hp : l.pending = []) (ht : l.todo = 0) :
    Leads E fates (draining l why rd .taking) []
      (draining l.closeRound why rd (.leaving l.allOk)) :=
  leads_look (.drain rfl hp ht) ⟨rfl, rfl, rfl, by simp [Fated, Event.Obeys]⟩

theorem leads_take (hp : l.pending ≠ []) :
    Leads E fates (draining l why rd .taking) []
      (draining l.take why rd (.executing (.start l.batch))) :=
  leads_look (.take rfl (by simp) hp) ⟨rfl, rfl, rfl, by simp [Fated, Event.Obeys]⟩

theorem leads_steps (why : Occasion) (rd : Round) {x y : Execution J}
    {ss : List (Deed E × JobEvent J E)} (hs : x.Steps ss y)
    (hobeys : ∀ s ∈ ss, s.2.Obeys fates) :
    Leads E fates (draining l why rd (.executing x)) []
      (draining l why rd (.executing y)) := by
  refine ⟨_, ?_, .worked 0 hobeys⟩
  clear hobeys
  induction hs with
  | nil => exact .nil _
  | @cons x y z d e ss first _ ih =>
    have hstep : (draining l why rd (.executing x)).step 0 (.work d) =
        some (draining l why rd (.executing y), [.job e]) :=
          (DutyStep.work first).step rfl rfl
    exact .cons hstep ih

/-- A batch that is carried out is reported, and then the thread looks for more. -/
theorem leads_report {y : Execution J} (hf : y.finished = true) :
    Leads E fates (draining l why rd (.executing y)) []
      (draining (l.report y.tally) why rd .taking) := by
  have hfinish : (draining l why rd (.executing y)).step 0 (.advance : Move J E) =
      some (draining l why rd (.reporting y.tally), [.executed (.owner why) y.tally]) :=
    (DutyStep.finish hf).step rfl rfl
  have hlock : (draining l why rd (.reporting y.tally)).step 0 (.advance : Move J E) =
      some ({ draining l why rd (.reporting y.tally) with ledgerLock := some 0 }, []) :=
        rfl
  have hreport :
      { draining l why rd (.reporting y.tally) with ledgerLock := some 0 }.step 0
      (.advance : Move J E) = some (draining (l.report y.tally) why rd
        (if (l.report y.tally).todo = 0 then .rousing else .taking),
          [.reported y.tally]) := rfl
  have hrun := (((Run.nil _).snoc hfinish).snoc hlock).snoc hreport
  by_cases hz : (l.report y.tally).todo = 0
  · rw [if_pos hz] at hrun
    have hrouse :
        (draining (l.report y.tally) why rd .rousing).step 0 (.advance : Move J E) =
        some (draining (l.report y.tally) why rd .taking, []) := rfl
    exact ⟨_, hrun.snoc hrouse, rfl, rfl, rfl, by simp [Fated, Event.Obeys]⟩
  · rw [if_neg hz] at hrun
    exact ⟨_, hrun, rfl, rfl, rfl, by simp [Fated, Event.Obeys]⟩

/-- The ledger of a round while nothing of it is under way, with jobs that come to an
end. -/
structure Ready (fates : J → Fate) (l : Ledger J) : Prop where
  todo : l.todo = l.pending.length
  survivable : ∀ j ∈ l.pending, (fates j).Survivable

/-- All jobs that wait are carried out, batch after batch. -/
theorem leads_drain (why : Occasion) (rd : Round) (hl : Ready fates l) :
    ∃ l' v,
      Leads E fates (draining l why rd .taking) [] (draining l' why rd (.leaving v)) ∧
      Ready fates l' := by
  induction hlength : l.pending.length using Nat.strong_induction_on generalizing l with
  | _ length ih =>
    by_cases hp : l.pending = []
    · have ht : l.todo = 0 := by rw [hl.todo, hp]; rfl
      exact ⟨l.closeRound, l.allOk, leads_drained hp ht, hl.todo, hl.survivable⟩
    · have hsplit := l.batch_append_pending_take
      have hbatch : ∀ j ∈ l.batch, (fates j).Survivable := by
        intro j hj
        exact hl.survivable j (hsplit ▸ List.mem_append_left _ hj)
      obtain ⟨ss, y, hsteps, hfinished, hobeys⟩ :=
        Execution.exists_steps (E := E) (x := .start l.batch) hbatch rfl
      have hlengths : l.batch.length + l.take.pending.length = l.pending.length := by
        rw [← List.length_append, hsplit]
      have hready : Ready fates (l.take.report y.tally) := by
        refine ⟨?_, fun j hj => hl.survivable j (hsplit ▸ List.mem_append_right _ hj)⟩
        rw [Ledger.todo_report, Ledger.todo_take, Ledger.pending_report,
          hsteps.executed hfinished, hl.todo]
        omega
      have hless : (l.take.report y.tally).pending.length < length := by
        have hsome := List.length_pos_iff.2 (Ledger.batch_ne_nil hp)
        rw [Ledger.pending_report]
        omega
      obtain ⟨l', v, hrest, hready'⟩ := ih _ hless hready rfl
      have hwork := (leads_take hp).trans (leads_steps why rd hsteps hobeys)
      exact ⟨l', v, (hwork.trans (leads_report hfinished)).trans hrest, hready'⟩

/-- A round that is not drained is drained for any occasion. -/
theorem leads_complete (why : Occasion) (rd : Round) (hl : Ready fates l) :
    ∃ l' v,
      Leads E fates (draining l why rd .entering) []
      (alone l' (.completing v why) (some rd)) ∧ Ready fates l' := by
  obtain ⟨l', v, hdrain, hready⟩ :=
    leads_drain (E := E) (l := l.enter) why rd ⟨hl.todo, hl.survivable⟩
  have hleave :
      Leads E fates (draining l' why rd (.leaving v)) []
        (alone l'.leave (.completing v why) (some rd)) :=
    leads_of_play (onward 0 2) rfl ⟨rfl, rfl, rfl, by simp [Fated]⟩
  exact ⟨l'.leave, v, (leads_enter.trans hdrain).trans hleave, hready.todo,
    hready.survivable⟩

theorem leads_wait (rd : Round) (hl : Ready fates l) :
    ∃ l' rd', Leads E fates (resting l rd) [.wait] (resting l' rd') ∧ Ready fates l' := by
  obtain ⟨added, verdict⟩ := rd
  cases verdict with
  | some v =>
    exact ⟨l, ⟨added, some v⟩,
      leads_of_play [(0, .wait)] rfl ⟨rfl, rfl, rfl, by simp [Fated, Event.Obeys]⟩, hl⟩
  | none =>
    obtain ⟨l', v, hcomplete, hready⟩ := leads_complete (E := E) .waiting ⟨added, none⟩ hl
    have hask : Leads E fates (resting l ⟨added, none⟩) [.wait]
        (draining l .waiting ⟨added, none⟩ .entering) :=
      leads_of_play [(0, .wait)] rfl ⟨rfl, rfl, rfl, by simp [Fated]⟩
    have hanswer :
        Leads E fates (alone l' (.completing v .waiting) (some ⟨added, none⟩)) []
        (resting l' ⟨added, some v⟩) :=
      leads_of_play (onward 0 1) rfl ⟨rfl, rfl, rfl, by simp [Fated, Event.Obeys]⟩
    exact ⟨l', _, (hask.trans hcomplete).trans hanswer, hready⟩

theorem leads_add (rd : Round) {jobs : List J} (hl : Ready fates l)
    (hjobs : ∀ j ∈ jobs, (fates j).Survivable) :
    ∃ l' rd', Leads E fates (resting l rd) [.add jobs] (resting l' rd') ∧
      Ready fates l' := by
  have hready : Ready fates (l.push jobs) := by
    refine ⟨by simp [hl.todo], fun j hj => ?_⟩
    rcases List.mem_append.1 hj with hj | hj
    · exact hl.survivable j hj
    · exact hjobs j hj
  match jobs with
  | [] =>
    exact ⟨l, rd, leads_of_play [(0, .add [])] rfl ⟨rfl, rfl, rfl, by simp [Fated]⟩, hl⟩
  | [j] =>
    exact ⟨_, _, leads_of_play ([(0, .add [j])] ++ onward 0 2 ++ [(0, .rouse none)]) rfl
      ⟨rfl, rfl, rfl, by simp [Fated, Event.Obeys]⟩, hready⟩
  | i :: j :: jobs =>
    exact ⟨_, _, leads_of_play ([(0, .add (i :: j :: jobs))] ++ onward 0 3) rfl
      ⟨rfl, rfl, rfl, by simp [Fated, Event.Obeys]⟩, hready⟩

theorem leads_script (rd : Round)
    (hscript : ∀ m ∈ script, m = .wait ∨ ∃ jobs, m = .add jobs)
    (hfates : ∀ m ∈ script, ∀ j ∈ m.submitted, (fates j).Survivable)
    (hl : Ready fates l) :
    ∃ l' rd', Leads E fates (resting l rd) script (resting l' rd') ∧ Ready fates l' := by
  induction script generalizing l rd with
  | nil => exact ⟨l, rd, ⟨[], .nil _, .nil⟩, hl⟩
  | cons m script ih =>
    obtain ⟨l', rd', hfirst, hready⟩ :
        ∃ l' rd', Leads E fates (resting l rd) [m] (resting l' rd') ∧ Ready fates l' := by
      rcases hscript m (by simp) with rfl | ⟨jobs, rfl⟩
      · exact leads_wait rd hl
      · exact leads_add rd hl (hfates (.add jobs) (by simp))
    obtain ⟨l'', rd'', hrest, hready'⟩ := ih rd' (fun m hm => hscript m (by simp [hm]))
      (fun m hm => hfates m (by simp [hm])) hready
    exact ⟨l'', rd'', hfirst.trans hrest, hready'⟩

theorem leads_release (fates : J → Fate) (l : Ledger J) (rd : Round) (unwinding : Bool) :
    ∃ q, Leads E fates (alone l (.releasing unwinding) (some rd)) [] q ∧
      ∀ u, (q.thread u).round = none := by
  refine ⟨_, leads_of_play (onward 0 1) rfl ⟨rfl, rfl, rfl, by simp [Fated, Event.Obeys]⟩,
    fun u => ?_⟩
  cases u <;> rfl

theorem leads_close (rd : Round) (hl : Ready fates l) (unwinding : Bool) :
    ∃ q, Leads E fates (resting l rd) [.close unwinding] q ∧
    ∀ u, (q.thread u).round = none := by
  obtain ⟨added, verdict⟩ := rd
  cases verdict with
  | some v =>
    have hask : Leads E fates (resting l ⟨added, some v⟩) [.close unwinding]
        (alone l (.releasing unwinding) (some ⟨added, some v⟩)) :=
      leads_of_play [(0, .close unwinding)] rfl ⟨rfl, rfl, rfl, by simp [Fated]⟩
    obtain ⟨q, hrelease, hnone⟩ :=
      leads_release (E := E) fates l ⟨added, some v⟩ unwinding
    exact ⟨q, hask.trans hrelease, hnone⟩
  | none =>
    have hask : Leads E fates (resting l ⟨added, none⟩) [.close unwinding]
        (draining l (.closing unwinding) ⟨added, none⟩ .entering) :=
      leads_of_play [(0, .close unwinding)] rfl ⟨rfl, rfl, rfl, by simp [Fated]⟩
    obtain ⟨l', v, hcomplete, _⟩ :=
      leads_complete (E := E) (.closing unwinding) ⟨added, none⟩ hl
    have hconclude :
        Leads E fates
        (alone l' (.completing v (.closing unwinding)) (some ⟨added, none⟩)) []
        (alone l' (.releasing unwinding) (some ⟨added, some v⟩)) :=
      leads_of_play (onward 0 1) rfl ⟨rfl, rfl, rfl, by simp [Fated, Event.Obeys]⟩
    obtain ⟨q, hrelease, hnone⟩ :=
      leads_release (E := E) fates l' ⟨added, some v⟩ unwinding
    exact ⟨q, ((hask.trans hcomplete).trans hconclude).trans hrelease, hnone⟩

end Pool

/-- On a new pool without workers, a round can follow every script, and then be closed. -/
theorem exists_run_alone (n : Nat)
    (hscript : ∀ m ∈ script, m = .wait ∨ ∃ jobs, m = .add jobs)
    (hfates : ∀ m ∈ script, ∀ j ∈ m.submitted, (fates j).Survivable) (unwinding : Bool) :
    ∃ (k : List (Moment J E)) (q : Pool J), Reached n k q ∧
      (∀ u, (q.thread u).round = none) ∧ asked k = script ++ [.close unwinding] ∧
      roundCalls k = .opening :: (script ++ [Move.close unwinding]).flatMap Move.calls ∧
      workersSpawned k = [] ∧ Fated fates k := by
  have hopen :
      (Pool.new n).play ([(0, .openRound)] ++ onward 0 4 : List (Nat × Move J E)) =
      some (alone (.new n) .client (some {}),
        [⟨0, .openRound, []⟩, ⟨0, .advance, []⟩, ⟨0, .advance, []⟩,
        ⟨0, .advance, []⟩, ⟨0, .advance, [.opened]⟩]) := rfl
  obtain ⟨l, rd, ⟨k, hk, hperforms⟩, hready⟩ :=
    leads_script (E := E) (l := .new n) {} hscript hfates
    ⟨rfl, fun j hj => by cases hj⟩
  obtain ⟨q, ⟨k', hk', hperforms'⟩, hclosed⟩ := leads_close (E := E) rd hready unwinding
  have hall := hperforms.append hperforms'
  refine ⟨_, q, (Run.of_play hopen).trans (hk.trans hk'), hclosed, ?_, ?_, ?_, ?_⟩
  · rw [← hall.asked]
    rfl
  · rw [← hall.calls]
    rfl
  · have halone := hall.alone
    simp only [workersSpawned, collect_append] at halone ⊢
    rw [halone]
    rfl
  · exact fated_append.2 ⟨by simp [Fated, Event.Obeys], hall.fated⟩

end CheckRounds
