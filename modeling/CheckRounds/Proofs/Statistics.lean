import CheckRounds.Proofs.Reopening
import CheckRounds.Proofs.Pool.Journal
import CheckRounds.Proofs.Pool.Request
import Mathlib.Algebra.Order.BigOperators.Group.Finset
/-!
The totals of a pool are exact, and never go down.

A job is in `todo` until the batch it is in is reported, and in the totals from then on.
Nothing else moves it: to take a batch changes `pending` only, and the jobs that end
before the report change nothing that others can see. So a snapshot that is made in the
middle of a batch is as good as any other one.
-/

namespace CheckRounds

open Pool

variable {J E : Type} {n t u : Nat} {h k : List (Moment J E)} {m : Move J E}
  {es : List (Event J E)} {p q : Pool J} {o : Upshot J E}

/-! ## What one step adds to the totals -/

theorem Shift.totals_reported {l : Ledger J} {s : Option Nat} {th : Thread J}
    (h : Shift t l s th m o) {f : Tally → Nat} (hf : Tally.Counts f) :
    f o.ledger.totals = f l.totals + total f (o.events.flatMap Event.tallies) := by
  cases h with
  | still _ hc | clerical _ _ _ hc =>
    rw [tallies_of_clerical hc]
    rfl
  | report =>
    rw [Ledger.totals_report, hf.add]
    rfl
  | _ => rfl

theorem Shift.rounds_drained {l : Ledger J} {s : Option Nat} {th : Thread J}
    (h : Shift t l s th m o) :
    o.ledger.roundsCompleted =
      l.roundsCompleted + (o.events.flatMap Event.drains).length := by
  cases h with
  | still _ hc | clerical _ _ _ hc =>
    rw [drains_of_clerical hc]
    rfl
  | _ => rfl

/-- What is added goes to `todo`, and a report moves a whole batch from there to the
jobs that were carried out. -/
theorem Shift.executed_todo {l : Ledger J} {s : Option Nat} {th : Thread J}
    (h : Shift t l s th m o) (hle : th.inFlight ≤ l.todo) :
    o.ledger.jobsExecuted + o.ledger.todo =
      l.jobsExecuted + l.todo + (o.events.flatMap Event.addedJobs).length := by
  cases h with
  | still _ hc | clerical _ _ _ hc =>
    rw [addedJobs_of_clerical hc]
    rfl
  | push => simp [Ledger.push, Event.addedJobs, Nat.add_assoc]
  | @report role tally hd =>
    have hin : th.inFlight = tally.executed := by simp [Thread.inFlight, hd]
    change l.jobsExecuted + tally.executed + (l.todo - tally.executed) =
        l.jobsExecuted + l.todo + 0
    omega
  | _ => rfl

theorem Shift.todo_le_of_not_reported {l : Ledger J} {s : Option Nat} {th : Thread J}
    (h : Shift t l s th m o) (hn : ∀ tally, .reported tally ∉ o.events) :
    l.todo ≤ o.ledger.todo ∧ o.ledger.totals = l.totals := by
  cases h with
  | push => exact ⟨Nat.le_add_right _ _, rfl⟩
  | report => exact absurd List.mem_cons_self (hn _)
  | _ => exact ⟨Nat.le_refl _, rfl⟩

theorem Shift.load_of_reported {l : Ledger J} {s : Option Nat} {th : Thread J}
    (h : Shift t l s th m o) {tally : Tally} (he : .reported tally ∈ o.events) :
    th.load = [tally.executed] := by
  cases h with
  | still _ hc | clerical _ _ _ hc => exact absurd (hc _ he) (by simp [Event.clerical])
  | report hd =>
    simp only [List.mem_singleton, Event.reported.injEq] at he
    simp [Thread.load, hd, he]
  | _ => simp at he

/-! ## What a run adds to the totals -/

theorem Run.totals_reported (hr : Run p k q) {f : Tally → Nat} (hf : Tally.Counts f) :
    f q.ledger.totals = f p.ledger.totals + total f (collect Event.tallies k) := by
  induction hr with
  | nil => rfl
  | snoc _ last ih =>
    obtain ⟨o, hs, ht⟩ := turns_of_step last
    rw [ht.ledger, hs.totals_reported hf, ih, collect_append, collect_singleton,
      total_append, ht.events, Nat.add_assoc]

theorem Run.rounds_drained (hr : Run p k q) :
    q.ledger.roundsCompleted = p.ledger.roundsCompleted + (drains k).length := by
  induction hr with
  | nil => rfl
  | snoc _ last ih =>
    obtain ⟨o, hs, ht⟩ := turns_of_step last
    rw [ht.ledger, hs.rounds_drained, ih, drains, drains, collect_append,
      collect_singleton, List.length_append, ht.events, Nat.add_assoc]

/-- The four totals only grow. -/
theorem Run.totals_le (hr : Run p k q) :
    p.ledger.roundsCompleted ≤ q.ledger.roundsCompleted ∧
    p.ledger.jobsExecuted ≤ q.ledger.jobsExecuted ∧
    p.ledger.jobsFailed ≤ q.ledger.jobsFailed ∧
    p.ledger.jobsCrashed ≤ q.ledger.jobsCrashed := by
  have grows : ∀ {f : Tally → Nat}, Tally.Counts f →
      f p.ledger.totals ≤ f q.ledger.totals := by
    intro f hf
    rw [hr.totals_reported hf]
    exact Nat.le_add_right _ _
  refine ⟨?_, grows Tally.counts_executed, grows Tally.counts_failed,
    grows Tally.counts_crashed⟩
  rw [hr.rounds_drained]
  exact Nat.le_add_right _ _

theorem Reached.executed_todo (hr : Reached n h p) :
    p.ledger.jobsExecuted + p.ledger.todo = (jobsAdded h).length := by
  refine hr.induct
    (C := fun h p => p.ledger.jobsExecuted + p.ledger.todo = (jobsAdded h).length) rfl ?_
  intro h p t m q es hp ih ht
  obtain ⟨o, hs, ht⟩ := ht
  rw [ht.ledger, hs.executed_todo (hp.inFlight_le_todo t), ih, jobsAdded, jobsAdded,
    collect_append, collect_singleton, List.length_append, ht.events]

/-! ## The jobs of the reported batches -/

/-- The batches that `u` took and reported. -/
def reportedBatches (u : Nat) (h : List (Moment J E)) : List (List J) :=
  (batchesOf u h).take (talliesOf u h).length

/-- The jobs of these batches in their order, each with how it behaved. -/
def jobsReported (u : Nat) (h : List (Moment J E)) : List (J × Fate) :=
  ((journal (ofThread u h)).done.take (talliesOf u h).length).flatten

theorem Kept.length_tallies_le {th : Thread J} (hk : Kept k th) :
    (collect Event.tallies k).length ≤ (journal k).done.length := by
  have hlength := congrArg List.length hk.reports
  rw [hk.executions, List.length_map, List.length_append] at hlength
  omega

theorem Kept.tallies {th : Thread J} (hk : Kept k th) :
    collect Event.tallies k =
      ((journal k).done.take (collect Event.tallies k).length).map tallyOn := by
  rw [List.map_take, ← hk.executions, hk.reports, List.take_left']
  rfl

theorem Reached.map_jobsReported (hr : Reached n h p) (u : Nat) :
    (jobsReported u h).map Prod.fst = (reportedBatches u h).flatten := by
  have hk := hr.kept u
  rw [reportedBatches, batchesOf, hk.batches, List.take_append_of_le_length,
    ← List.map_take, jobsReported, List.map_flatten]
  rw [List.length_map]
  exact hk.length_tallies_le

theorem Reached.totals_eq (hr : Reached n h p) {f : Tally → Nat} (hf : Tally.Counts f) :
    f p.ledger.totals = ∑ u ∈ movers h, tallyOf f (jobsReported u h) := by
  have hzero : f (Pool.new n : Pool J).ledger.totals = 0 := hf.zero
  rw [Run.totals_reported hr hf, hzero, Nat.zero_add, total_collect]
  refine Finset.sum_congr rfl fun u _ => ?_
  rw [(hr.kept u).tallies, hf.total_tallyOn]
  rfl

/-! ## The totals are exact -/

/-- With no round open, the totals follow from the jobs that were added. -/
theorem Reached.totals_of_noRound (hr : Reached n h p)
    (hclosed : ∀ u, (p.thread u).round = none) {behaves : J → Verdict}
    (hb : Behaved behaves h) {f : Tally → Nat} (hf : Tally.Counts f) :
    f p.ledger.totals = total (fun j => f (behaves j).tally) (jobsAdded h) := by
  have hv : p.Vacant := ⟨hr.sound, hclosed⟩
  have hzero : f (Pool.new n : Pool J).ledger.totals = 0 := hf.zero
  rw [Run.totals_of_blank (.new n) (.new n) hr hv.sound hv.blank hf, hzero, Nat.zero_add,
    hb.tallyOf_eq]
  exact hr.weighed.total_ended hv.blank _

/-- What the totals say of the history that led to them. -/
structure Exact (h : List (Moment J E)) (p : Pool J) : Prop where
  split : p.ledger.jobsExecuted + p.ledger.todo = (jobsAdded h).length
  pending_le : p.ledger.pending.length ≤ p.ledger.todo
  reported : ∀ u, (jobsReported u h).map Prod.fst = (reportedBatches u h).flatten
  executed : p.ledger.jobsExecuted = ∑ u ∈ movers h, (jobsReported u h).length
  failed : p.ledger.jobsFailed =
    ∑ u ∈ movers h, (jobsReported u h).countP fun j => !j.2.outcome
  crashed : p.ledger.jobsCrashed =
    ∑ u ∈ movers h, (jobsReported u h).countP fun j => j.2.payload?.isSome
  crashed_le : p.ledger.jobsCrashed ≤ p.ledger.jobsFailed
  failed_le : p.ledger.jobsFailed ≤ p.ledger.jobsExecuted
  rounds : p.ledger.roundsCompleted = (drains h).length
  asked : p.DrainsNone → p.ledger.roundsCompleted = drainsAsked (roundCalls h)

theorem Reached.exact (hr : Reached n h p) : Exact h p := by
  have hexecuted := hr.totals_eq Tally.counts_executed
  have hfailed := hr.totals_eq Tally.counts_failed
  have hcrashed := hr.totals_eq Tally.counts_crashed
  have hrounds := Run.rounds_drained hr
  have hzero : (Pool.new n : Pool J).ledger.roundsCompleted = 0 := rfl
  rw [hzero, Nat.zero_add] at hrounds
  refine ⟨hr.executed_todo, ?_, hr.map_jobsReported, ?_, ?_, ?_, ?_, ?_, hrounds,
    fun hd => ?_⟩
  · rw [hr.sound.todo]
    exact Nat.le_add_right _ _
  · simp only [tallyOf_executed] at hexecuted
    exact hexecuted
  · simp only [tallyOf_failed] at hfailed
    exact hfailed
  · simp only [tallyOf_crashed] at hcrashed
    exact hcrashed
  · change p.ledger.totals.crashed ≤ p.ledger.totals.failed
    rw [hcrashed, hfailed]
    exact Finset.sum_le_sum fun u _ => tallyOf_crashed_le _
  · change p.ledger.totals.failed ≤ p.ledger.totals.executed
    rw [hfailed, hexecuted]
    exact Finset.sum_le_sum fun u _ => tallyOf_failed_le _
  · obtain ⟨hcount, hverdicts⟩ := Run.drains_eq (.new n) hr hd
    rw [hrounds, hverdicts, List.length_map, hcount]

/-- What a step does to `todo` and to the totals: to take a batch changes `pending`
only, and the report of a whole batch is the one step that lowers `todo` or raises the
totals of jobs. -/
structure MovesExactly (h : List (Moment J E)) (p : Pool J) (t : Nat) (q : Pool J)
    (es : List (Event J E)) : Prop where
  took : ∀ role batch, .took role batch ∈ es →
    p.ledger.pending = batch ++ q.ledger.pending ∧
    q.ledger = { p.ledger with pending := q.ledger.pending }
  otherwise : (∀ tally, .reported tally ∉ es) →
    p.ledger.todo ≤ q.ledger.todo ∧ q.ledger.totals = p.ledger.totals
  reported : ∀ tally, .reported tally ∈ es → ∃ batch, unreported t h = [batch] ∧
    tally.executed = batch.length ∧ q.ledger.todo + batch.length = p.ledger.todo ∧
    q.ledger.totals = p.ledger.totals.add tally

theorem Reached.movesExactly (hr : Reached n h p) (hstep : p.step t m = some (q, es)) :
    MovesExactly h p t q es := by
  obtain ⟨o, hs, ht⟩ := turns_of_step hstep
  refine ⟨fun role batch he => ?_, fun hn => ?_, fun tally he => ?_⟩
  · rw [ht.events] at he
    obtain ⟨_, _, rfl, hl⟩ := hs.of_took he
    rw [ht.ledger, hl]
    exact ⟨(Ledger.batch_append_pending_take _).symm, rfl⟩
  · rw [ht.events] at hn
    rw [ht.ledger]
    exact hs.todo_le_of_not_reported hn
  · rw [ht.events] at he
    obtain ⟨hin, hl⟩ := hs.of_reported he
    have hle := hr.sound.inFlight_le_todo t
    have hload := hr.map_length_unreported t
    rw [hs.load_of_reported he, List.map_eq_singleton_iff] at hload
    obtain ⟨batch, hbatch, hsize⟩ := hload
    refine ⟨batch, hbatch, hsize.symm, ?_, ?_⟩
    · rw [ht.ledger, hl, Ledger.todo_report]
      omega
    · rw [ht.ledger, hl, Ledger.totals_report]

/-- The totals are exact in every state. The jobs that were carried out and `todo` add
up to the jobs that were ever added, so no count outgrows these. The totals of jobs
count the jobs of the reported batches, those of them that failed, and those that
crashed, in their call or in their release; that of rounds counts the drains. They never
go down; to take a batch changes `pending` only, and a snapshot shows them as they are.
While no round is open, they follow from the jobs that were added, and neither workers,
nor the size of the batches, nor the schedule matters. -/
theorem Reached.totals_exact (hr : Reached n h p) :
    Exact h p ∧
    (∀ t (m : Move J E) q es, p.step t m = some (q, es) → MovesExactly h p t q es) ∧
    (∀ (k : List (Moment J E)) q, Run p k q →
      p.ledger.roundsCompleted ≤ q.ledger.roundsCompleted ∧
      p.ledger.jobsExecuted ≤ q.ledger.jobsExecuted ∧
      p.ledger.jobsFailed ≤ q.ledger.jobsFailed ∧
      p.ledger.jobsCrashed ≤ q.ledger.jobsCrashed) ∧
    (∀ t (m : Move J E) q es r, p.step t m = some (q, es) → .returned (.metrics r) ∈ es →
      ∃ workers, p.Shows workers r) ∧
    ∀ behaves : J → Verdict, (∀ u, (p.thread u).round = none) → Behaved behaves h →
      p.ledger.jobsExecuted = (jobsAdded h).length ∧
      p.ledger.jobsFailed = (jobsAdded h).countP (fun j => !(behaves j).ok) ∧
      p.ledger.jobsCrashed = (jobsAdded h).countP fun j => behaves j == .crashed := by
  refine ⟨hr.exact, fun t m q es => hr.movesExactly, fun k q => Run.totals_le,
    fun t m q es r hstep he => ?_, fun behaves hclosed hb => ?_⟩
  · obtain ⟨workers, _, hshows⟩ := shows_of_returned hstep he
    exact ⟨workers, hshows⟩
  have hexecuted := hr.totals_of_noRound hclosed hb Tally.counts_executed
  have hfailed := hr.totals_of_noRound hclosed hb Tally.counts_failed
  have hcrashed := hr.totals_of_noRound hclosed hb Tally.counts_crashed
  simp only [Verdict.executed_tally, total_one] at hexecuted
  simp only [Verdict.failed_tally, total_toNat] at hfailed
  simp only [Verdict.crashed_tally, total_toNat] at hcrashed
  exact ⟨hexecuted, hfailed, hcrashed⟩

/-- A client starts a worker and adds three jobs. The worker has carried out and
reported the first one, which crashed, and the second one, which failed, and runs the
third one. -/
def thirdJob : List (Nat × Move Nat Unit) :=
  List.flatten [[(0, .request (.start 1))], onward 0 3, [(0, .spawn 1)], onward 0 4,
    [(0, .openRound)], onward 0 4, [(0, .add [5, 6, 7])], onward 0 3, onward 1 4,
    [(1, .work .proceed), (1, .work (.conclude (.error .other)))],
    [(1, .work (.discard none)), (1, .work .proceed)], onward 1 5, carryOut 1 false,
    onward 1 5, [(1, .work .proceed)]]

def thirdJobRun : Pool Nat × List (Moment Nat Unit) := played 1 thirdJob

theorem thirdJob_exact :
    Reached 1 thirdJobRun.2 thirdJobRun.1 ∧
    jobsReported 1 thirdJobRun.2 = [(5, ⟨.error .other, none⟩), (6, ⟨.ok false, none⟩)] ∧
    thirdJobRun.1.ledger.jobsExecuted + thirdJobRun.1.ledger.todo = 3 ∧
    thirdJobRun.1.ledger.totals = ⟨2, 2, 1⟩ ∧
    thirdJobRun.1.ledger.jobsCrashed =
      ∑ u ∈ movers thirdJobRun.2,
      (jobsReported u thirdJobRun.2).countP (fun j => j.2.payload?.isSome) ∧
    badRun.1.ledger.jobsFailed = [5, 6].countP fun j =>
      !(if j = 6 then Verdict.crashed else .failed).ok := by
  have hr : Reached 1 thirdJobRun.2 thirdJobRun.1 := .of_played (by decide +kernel)
  have hbad : Reached 1 badRun.2 badRun.1 := .of_played (by decide +kernel)
  obtain ⟨hexact, _⟩ := Reached.totals_exact hr
  obtain ⟨_, _, _, _, hclosed⟩ := Reached.totals_exact hbad
  obtain ⟨_, hfailed, _⟩ := hclosed (fun j => if j = 6 then .crashed else .failed)
    (noRound_of_all (by decide +kernel)) (.of_all (by decide +kernel))
  have hadded : jobsAdded thirdJobRun.2 = [5, 6, 7] := by decide +kernel
  have hbadJobs : jobsAdded badRun.2 = [5, 6] := by decide +kernel
  rw [hbadJobs] at hfailed
  exact ⟨hr, by decide +kernel, by rw [hexact.split, hadded]; rfl, by decide +kernel,
    hexact.crashed, hfailed⟩

end CheckRounds
