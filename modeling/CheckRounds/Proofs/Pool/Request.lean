import CheckRounds.Proofs.Pool.Flow
import CheckRounds.Proofs.Pool.Progress
/-!
Which request a call serves.

A call begins with a request and with nothing else, and once the pool was given up
nobody makes one. What concerns the pool as a whole is done in the steps of calls: a
step of a duty neither sets the flag nor shows an event of a call (`DutyFrame`). A
snapshot, which is a call as well, returns what the ledger says
(`Pool.shows_of_returned`).
-/

namespace CheckRounds

open Pool

variable {J E : Type} {n t u : Nat} {h k : List (Moment J E)} {m : Move J E}
  {es : List (Event J E)} {p q : Pool J} {c : Call}

/-! ## Steps without a call under way -/

/-- The event belongs to a call. -/
def Event.ofCall : Event J E → Bool
  | .spawned _ _ => true
  | .started _ _ => true
  | .flagged => true
  | .alarmed => true
  | .collected _ => true
  | .joined _ => true
  | .stopped _ => true
  | .returned (.opened _) => false
  | .returned (.verdict _) => false
  | .returned _ => true
  | _ => false

/-- What a step of the duty of `t` leaves alone. -/
structure DutyFrame (p : Pool J) (t : Nat) (q : Pool J) (es : List (Event J E)) :
    Prop where
  call : (q.thread t).call = none
  retired : q.retired = p.retired
  flag : q.ledger.shuttingDown = p.ledger.shuttingDown
  events : ∀ e ∈ es, e.ofCall = false

theorem DutyStep.frame {d : Duty J} (h : DutyStep p t d m q es)
    (hc : (p.thread t).call = none) : DutyFrame p t q es := by
  cases h with
  | lockLedger | decline | declineJob | addNothing | retell =>
    exact ⟨hc, rfl, rfl, by simp [Event.ofCall]⟩
  | opened | submit | answer | conclude | release =>
    exact ⟨call_setRound_setDuty hc _ _, rfl, rfl, by simp [Event.ofCall]⟩
  | rouseAll | announce => exact ⟨call_setDuty (call_rouseAll hc) _, rfl, rfl, by simp⟩
  | rouseOne => exact ⟨call_setDuty (call_setThread_roused hc _) _, rfl, rfl, by simp⟩
  | _ => exact ⟨call_setDuty hc _, rfl, rfl, by simp [Event.ofCall]⟩

/-! ## The request behind a call -/

def Move.request? : Move J E → Option Request
  | .request r => some r
  | _ => none

/-- The last request that `t` has made. -/
def lastRequest (t : Nat) (h : List (Moment J E)) : Option Request :=
  ((ofThread t h).filterMap (·.move.request?)).getLast?

theorem lastRequest_of_request {r : Request} :
    lastRequest t (h ++ [⟨t, .request r, es⟩]) = some r := by
  simp [lastRequest, ofThread_singleton, Move.request?]

theorem lastRequest_of_other (hm : u = t → ∀ r, m ≠ .request r) :
    lastRequest t (h ++ [⟨u, m, es⟩]) = lastRequest t h := by
  rw [lastRequest, ofThread_append, ofThread_singleton]
  split
  · rename_i hu
    have hnone : m.request? = none := by
      cases m with
      | request r => exact absurd rfl (hm hu r)
      | _ => rfl
    simp [lastRequest, hnone]
  · rw [List.append_nil, lastRequest]

/-- The call is made for this request. -/
def Call.Serves : Call → Request → Prop
  | .configuring n, r => r = .configure n
  | .readingBatchSize, r => r = .batchSize
  | .countingWorkers, r => r = .workerThreads
  | .measuring _, r => r = .metrics
  | .starting count _, r => r = .start count
  | .stopping _, r => r = .stop ∨ r = .retire

theorem Request.call_serves (r : Request) : r.call.Serves r := by
  cases r <;> simp [call, Call.Serves]

theorem CallStep.serves {c' : Call} {r : Request} (h : CallStep p t c m q es)
    (hs : c.Serves r) (hc : (p.thread t).call = some c)
    (hq : (q.thread t).call = some c') : c'.Serves r := by
  have next {x : Pool J} {d : Option Call} (hx : q = x.setCall t d) : d = some c' := by
    rw [hx, call_setCall] at hq
    exact hq
  cases h with
  | lockLedger | lockRoster =>
    obtain rfl := Option.some.inj (hc.symm.trans hq)
    exact hs
  | configure | readBatchSize | countWorkers | measure | endStart | collectNone
  | endStop =>
    cases next rfl
  | _ =>
    obtain rfl := Option.some.inj (next rfl)
    exact hs

/-- Nobody makes a request while a call is under way. -/
theorem Pool.step_request_of_call (hc : (p.thread t).call = some c) (r : Request) :
    p.step t (.request r : Move J E) = none := by
  cases hstep : p.step t (.request r : Move J E) with
  | none => rfl
  | some result => cases callStep_of_step hc hstep

theorem Reached.serves (hr : Reached n h p) (hc : (p.thread t).call = some c) :
    ∃ r, lastRequest t h = some r ∧ c.Serves r := by
  induction hr generalizing c with
  | nil => cases hc
  | @snoc p q h u m es _ last ih =>
    by_cases hu : u = t
    · subst hu
      cases hbefore : (p.thread u).call with
      | none =>
        cases soloStep_of_step hbefore last with
        | begins r =>
          rw [call_setCall, Option.some.injEq] at hc
          exact ⟨r, lastRequest_of_request, hc ▸ r.call_serves⟩
        | goesOn _ _ step => cases (step.frame hbefore).call.symm.trans hc
      | some d =>
        obtain ⟨r, hlast, hserves⟩ := ih hbefore
        refine ⟨r, ?_, (callStep_of_step hbefore last).serves hserves hbefore hc⟩
        rw [lastRequest_of_other fun _ r' hm => ?_, hlast]
        rw [hm, step_request_of_call hbefore] at last
        cases last
    · obtain ⟨o, _, ht⟩ := turns_of_step last
      rw [ht.same Thread.call_roused rfl (Ne.symm hu)] at hc
      rw [lastRequest_of_other fun he => absurd he hu]
      exact ih hc

/-! ## What a snapshot shows -/

/-- Field by field, the record is what the ledger says, beside a count of the workers. -/
structure Pool.Shows (p : Pool J) (workers : Nat) (r : Metrics) : Prop where
  workerThreads : r.workerThreads = workers
  batchSize : r.batchSize = p.ledger.batchSize
  pending : r.pending = p.ledger.pending.length
  todo : r.todo = p.ledger.todo
  idle : r.idle = p.ledger.idle
  roundsCompleted : r.roundsCompleted = p.ledger.roundsCompleted
  jobsExecuted : r.jobsExecuted = p.ledger.jobsExecuted
  jobsFailed : r.jobsFailed = p.ledger.jobsFailed
  jobsCrashed : r.jobsCrashed = p.ledger.jobsCrashed
  shuttingDown : r.shuttingDown = p.ledger.shuttingDown

theorem Pool.shows_measure (p : Pool J) (workers : Nat) :
    p.Shows workers (p.measure workers) := by
  constructor <;> rfl

/-- A snapshot returns the ledger as it is, and the workers as they were counted
before. -/
theorem Pool.shows_of_returned {r : Metrics} (hstep : p.step t m = some (q, es))
    (he : .returned (.metrics r) ∈ es) :
    ∃ w, (p.thread t).call = some (.measuring (some w)) ∧ p.Shows w r := by
  cases hc : (p.thread t).call with
  | none =>
    cases soloStep_of_step hc hstep with
    | begins => cases he
    | goesOn _ _ step => cases (step.frame hc).events _ he
  | some c =>
    cases callStep_of_step hc hstep with
    | @measure w =>
      obtain rfl : r = p.measure w := by simpa using he
      exact ⟨w, rfl, shows_measure p w⟩
    | _ => simp at he

end CheckRounds
