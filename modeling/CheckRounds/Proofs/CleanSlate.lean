import CheckRounds.Proofs.Accounting
import CheckRounds.Proofs.Pool.Totals
import CheckRounds.Proofs.Pool.Calls
/-!
A round that is over leaves nothing behind but its totals.

Whenever no round is open, nothing waits, nothing is under way and no failure is on
record, so a round that is opened then finds the pool as a new one. With jobs that
behave the same wherever they run, the same calls give the same verdicts, and add the
same to the totals, as on a new pool.
-/

namespace CheckRounds

open Pool

variable {J E : Type} {n : Nat} {h k : List (Moment J E)} {p q : Pool J}
  {behaves : J → Verdict}

/-- The jobs that ended in this part of a history behaved as they do wherever they run. -/
def Behaved (behaves : J → Verdict) (h : List (Moment J E)) : Prop :=
  ∀ j ∈ jobsEnded h, j.2.verdict = behaves j.1

theorem Behaved.follows (hb : Behaved behaves h) :
    Follows (fun j => (behaves j).ok) h := by
  intro j hj
  rw [← Fate.ok_verdict, hb j hj]

theorem Behaved.tallyOf_eq (hb : Behaved behaves h) (f : Tally → Nat) :
    tallyOf f (jobsEnded h) =
      total (fun j => f (behaves j).tally) ((jobsEnded h).map Prod.fst) := by
  rw [total_map, tallyOf]
  refine total_congr fun j hj => ?_
  rw [hb j hj]

/-- What the calls on rounds of such jobs add to the totals. -/
theorem Run.totals_of_vacant (hv : p.Vacant) (hr : Run p k q) (hq : q.Vacant)
    (hb : Behaved behaves k) {f : Tally → Nat} (hf : Tally.Counts f) :
    f q.ledger.totals = f p.ledger.totals +
      total (fun j => f (behaves j).tally) ((roundCalls k).flatMap RoundCall.jobs) := by
  have hended := (Run.weighed hv.sound hv.blank hr).total_ended hq.blank
    fun j => f (behaves j).tally
  rw [Run.totals_of_blank hv.sound hv.blank hr hq.sound hq.blank hf,
    hb.tallyOf_eq, hended, Run.jobsAdded_of_vacant hv hr hq]

/-- The same calls add the same to the totals of any two pools. -/
theorem Run.totals_add {p' q' : Pool J} {k' : List (Moment J E)} (hv : p.Vacant)
    (hr : Run p k q) (hq : q.Vacant) (hv' : p'.Vacant) (hr' : Run p' k' q')
    (hq' : q'.Vacant) (hcalls : roundCalls k = roundCalls k') (hb : Behaved behaves k)
    (hb' : Behaved behaves k') {f : Tally → Nat} (hf : Tally.Counts f)
    (hzero : p'.ledger.totals = {}) :
    f q.ledger.totals = f p.ledger.totals + f q'.ledger.totals := by
  rw [Run.totals_of_vacant hv hr hq hb hf, Run.totals_of_vacant hv' hr' hq' hb' hf,
    hcalls, hzero, hf.zero, Nat.zero_add]

/-- Whatever rounds came before, a pool on which no round is open is in the state in
which a round is opened on a new pool: from there, the same calls with the same jobs
give the same verdicts, and add to the totals what they come to on a new pool. -/
theorem Reached.leaves_no_trace (hr : Reached n h p)
    (hclosed : ∀ u, (p.thread u).round = none) :
    p.ledger.pending = [] ∧ p.ledger.todo = 0 ∧ p.ledger.allOk = true ∧
    (∀ u, unreported u h = []) ∧
    p.ledger.openRound = p.ledger ∧
    ∀ (behaves : J → Verdict) (k : List (Moment J E)) q n' (k' : List (Moment J E)) q',
      Run p k q → (∀ u, (q.thread u).round = none) →
      Reached n' k' q' → (∀ u, (q'.thread u).round = none) →
      roundCalls k = roundCalls k' → Behaved behaves k → Behaved behaves k' →
      answers k = answers k' ∧
      q.ledger.roundsCompleted = p.ledger.roundsCompleted + q'.ledger.roundsCompleted ∧
      q.ledger.jobsExecuted = p.ledger.jobsExecuted + q'.ledger.jobsExecuted ∧
      q.ledger.jobsFailed = p.ledger.jobsFailed + q'.ledger.jobsFailed ∧
      q.ledger.jobsCrashed = p.ledger.jobsCrashed + q'.ledger.jobsCrashed := by
  have hv : p.Vacant := ⟨hr.sound, hclosed⟩
  have hblank := hv.blank
  refine ⟨hblank.pending, hv.drained.1, hblank.allOk, fun u => ?_, ?_, ?_⟩
  · exact (hr.unreported_eq_nil_iff u).2 (hblank.inFlight u)
  · rw [Ledger.openRound, ← hblank.allOk]
  · intro behaves k q n' k' q' hk hq hk' hq' hcalls hb hb'
    have hq : q.Vacant := ⟨Run.sound hv.sound hk, hq⟩
    have hq' : q'.Vacant := ⟨hk'.sound, hq'⟩
    have hnew : (Pool.new n' : Pool J).Vacant := .new n'
    obtain ⟨hcompletions, hanswers⟩ := Run.account_of_vacant hv hk hb.follows hq
    obtain ⟨hcompletions', hanswers'⟩ := Run.account_of_vacant hnew hk' hb'.follows hq'
    have hcount := Run.roundsCompleted_of_vacant hv hk hq
    have hcount' := Run.roundsCompleted_of_vacant hnew hk' hq'
    have hzero : (Pool.new n' : Pool J).ledger.roundsCompleted = 0 := rfl
    refine ⟨?_, ?_, ?_, ?_, ?_⟩
    · rw [hanswers, hanswers', hcalls]
    · rw [hcount, hcount', hcompletions, hcompletions', hcalls, hzero, Nat.zero_add]
    · exact Run.totals_add hv hk hq hnew hk' hq' hcalls hb hb' Tally.counts_executed rfl
    · exact Run.totals_add hv hk hq hnew hk' hq' hcalls hb hb' Tally.counts_failed rfl
    · exact Run.totals_add hv hk hq hnew hk' hq' hcalls hb hb' Tally.counts_crashed rfl

theorem noRound_of_all (hp : (p.threads.all fun th => th.round.isNone) = true) (u : Nat) :
    (p.thread u).round = none := by
  rcases thread_mem_or_default p u with hu | hu
  · simpa using List.all_eq_true.1 hp _ hu
  · rw [hu]

theorem Behaved.of_all
    (hb : ((jobsEnded h).all fun j => j.2.verdict == behaves j.1) = true) :
    Behaved behaves h := fun j hj => by simpa using List.all_eq_true.1 hb j hj

/-- A client opens a round with a job that fails and one that crashes, and closes it
because it is crashing itself. -/
def badRound : List (Nat × Move Nat Unit) :=
  List.flatten [[(0, .openRound)], onward 0 4, [(0, .add [5, 6])], onward 0 3,
    [(0, .close true)], onward 0 4, carryOut 0 false, onward 0 5,
    [(0, .work .proceed), (0, .work (.conclude (.error .other)))],
    [(0, .work (.discard none)), (0, .work .proceed)], onward 0 10]

def badRun : Pool Nat × List (Moment Nat Unit) := played 1 badRound

/-- A round with a job that passes, and one that is added late and fails. A worker
carries out the first one. -/
def helpedRound : List (Nat × Move Nat Unit) :=
  List.flatten [[(0, .request (.start 1))], onward 0 3, [(0, .spawn 1)], onward 0 4,
    [(0, .openRound)], onward 0 4, [(0, .add [7])], onward 0 2, [(0, .rouse none)],
    onward 1 4, carryOut 1 true, onward 1 4, [(0, .wait)], onward 0 7, [(0, .add [8])],
    onward 0 2, [(0, .rouse none), (0, .close false)], onward 0 4, carryOut 0 false,
    onward 0 10]

def helpedRun : Pool Nat × List (Moment Nat Unit) :=
  (badRun.1.play helpedRound).getD badRun

/-- The same calls on a new pool without workers. -/
def loneRound : List (Nat × Move Nat Unit) :=
  List.flatten [[(0, .openRound)], onward 0 4, [(0, .add [7])], onward 0 2,
    [(0, .rouse none), (0, .wait)], onward 0 4, carryOut 0 true, onward 0 9,
    [(0, .add [8])], onward 0 2, [(0, .rouse none), (0, .close false)], onward 0 4,
    carryOut 0 false, onward 0 10]

def loneRun : Pool Nat × List (Moment Nat Unit) := played 3 loneRound

theorem helpedRun_as_loneRun :
    Reached 1 badRun.2 badRun.1 ∧ badRun.1.ledger.jobsFailed = 2 ∧
    badRun.1.ledger.allOk = true ∧
    Run badRun.1 helpedRun.2 helpedRun.1 ∧ Reached 3 loneRun.2 loneRun.1 ∧
    roundCalls loneRun.2 = [.opening, .add [7], .wait, .add [8], .close] ∧
    answers helpedRun.2 = answers loneRun.2 ∧
    helpedRun.1.ledger.roundsCompleted =
      badRun.1.ledger.roundsCompleted + loneRun.1.ledger.roundsCompleted ∧
    helpedRun.1.ledger.jobsFailed =
      badRun.1.ledger.jobsFailed + loneRun.1.ledger.jobsFailed := by
  have hbad : Reached 1 badRun.2 badRun.1 := .of_played (by decide +kernel)
  have hhelped : Run badRun.1 helpedRun.2 helpedRun.1 :=
    Run.of_played (by decide +kernel) _
  have hlone : Reached 3 loneRun.2 loneRun.1 := .of_played (by decide +kernel)
  have hb : Behaved (fun j => .ofAnswer (j == 7)) helpedRun.2 :=
    .of_all (by decide +kernel)
  have hb' : Behaved (fun j => .ofAnswer (j == 7)) loneRun.2 :=
    .of_all (by decide +kernel)
  obtain ⟨_, _, hok, _, _, hsame⟩ :=
    Reached.leaves_no_trace hbad (noRound_of_all (by decide +kernel))
  obtain ⟨hanswers, hrounds, _, hfailed, _⟩ := hsame _ _ _ _ _ _ hhelped
    (noRound_of_all (by decide +kernel)) hlone (noRound_of_all (by decide +kernel))
    (by decide +kernel) hb hb'
  exact ⟨hbad, by decide +kernel, hok, hhelped, hlone, by decide +kernel, hanswers,
    hrounds, hfailed⟩

end CheckRounds
