import CheckRounds.Proofs.Pool.StepRules
/-!
What one step of a pool can do, in one list.

Most of what the rules of a step say concerns locks and calls. `Shift` tells of a step
only what becomes of the ledger, of the slot, of the thread that moves, and which other
threads it touches; taking a lock or answering a call is one case of it. `turns_of_step`
says that every step is in the list. What follows about all runs is proved from the
list.
-/

namespace CheckRounds

variable {J E : Type}

/-- Which threads a step touches besides the one that moves. -/
inductive Wake where
  | nobody
  | everyone
  | one (sleeper : Option Nat)
  | newborn (thread : Nat)

/-- What does not tell a sleeper from a thread that is about to be back from its sleep
is the same for a thread that is roused. -/
theorem Thread.apply_roused {α : Type} {f : Thread J → α}
    (h : ∀ (th : Thread J) role, th.duty = .looping role .asleep →
      f (th.withDuty (.looping role .waking)) = f th)
    (th : Thread J) : f th.roused = f th := by
  unfold Thread.roused
  split
  · rename_i role hd
    exact h th role hd
  · rfl

theorem Thread.roused_iff {P : Thread J → Prop}
    (h : ∀ (th : Thread J) role, th.duty = .looping role .asleep →
      (P (th.withDuty (.looping role .waking)) ↔ P th))
    (th : Thread J) : P th.roused ↔ P th := by
  rw [Thread.apply_roused fun th role hd => propext (h th role hd)]

namespace Wake

def touch (w : Wake) (u : Nat) (th : Thread J) : Thread J :=
  match w with
  | .nobody => th
  | .everyone => th.roused
  | .one sleeper => if sleeper = some u then th.roused else th
  | .newborn v => if u = v then { duty := .looping .worker .entering } else th

/-- The threads are as they have to be for this: only a sleeper can be the one that is
roused, and nobody is roused only if nobody sleeps; a worker starts as a thread that did
nothing so far. -/
def Fits (w : Wake) (p : Pool J) : Prop :=
  match w with
  | .one none => ∀ u, (p.thread u).isAsleep = false
  | .one (some u) => (p.thread u).isAsleep = true
  | .newborn v => p.thread v = {}
  | _ => True

/-- What does not tell who was roused, or who has just started, is the same after a
touch. -/
theorem apply_touch {α : Type} {f : Thread J → α} (hr : ∀ th, f th.roused = f th)
    (hn : f { duty := .looping .worker .entering } = f {}) {w : Wake} {p : Pool J}
    (hw : w.Fits p) (u : Nat) : f (w.touch u (p.thread u)) = f (p.thread u) := by
  cases w with
  | nobody => rfl
  | everyone => exact hr _
  | one sleeper =>
    simp only [touch]
    split
    · exact hr _
    · rfl
  | newborn v =>
    simp only [touch]
    split
    · rename_i huv
      have hv : p.thread v = {} := hw
      rw [huv, hv, hn]
    · rfl

end Wake

structure Upshot (J E : Type) where
  ledger : Ledger J
  slot : Option Nat
  thread : Thread J
  events : List (Event J E) := []
  wake : Wake := .nobody

/-- Events that concern neither jobs nor rounds. -/
def Event.clerical : Event J E → Bool
  | .returned (.verdict _) => false
  | .returned _ => true
  | .started _ _ => true
  | .collected _ => true
  | .joined _ => true
  | .stopped _ => true
  | _ => false

/-- What is asked of a round by the thread that has it open, besides its opening. -/
inductive RoundCall (J : Type) where
  | opening
  | add (jobs : List J)
  | wait
  | close
  deriving DecidableEq

/-- The calls of a move. To add nothing is no call. -/
def Move.calls : Move J E → List (RoundCall J)
  | .add jobs => if jobs.isEmpty then [] else [.add jobs]
  | .wait => [.wait]
  | .close _ => [.close]
  | _ => []

/-- What a step of thread `t` can do with the ledger `l`, the slot `s` and its own state
`th`. -/
inductive Shift (t : Nat) (l : Ledger J) (s : Option Nat) (th : Thread J) :
    Move J E → Upshot J E → Prop where
  | still {m es} (move : m.calls = []) (events : ∀ e ∈ es, e.clerical = true) :
      Shift t l s th m ⟨l, s, th, es, .nobody⟩
  | clerical {m c es} (move : m.calls = []) (call : th.call ≠ some (.stopping .rousing))
      (next : c ≠ some (.stopping .rousing)) (events : ∀ e ∈ es, e.clerical = true) :
      Shift t l s th m ⟨l, s, th.withCall c, es, .nobody⟩
  | configure {n} (call : th.call = some (.configuring n)) : Shift t l s th .advance
      ⟨l.configure n, s, th.withCall none, [.returned .done], .nobody⟩
  | flag (call : th.call = some (.stopping .flagging)) : Shift t l s th .advance
      ⟨l.shutDown, s, th.withCall (some (.stopping .rousing)), [.flagged], .nobody⟩
  | alarm (call : th.call = some (.stopping .rousing)) : Shift t l s th .advance
      ⟨l, s, th.roused.withCall (some (.stopping .collecting)), [.alarmed], .everyone⟩
  | spawn {w i count} (call : th.call = some (.starting count (.spawning i))) :
      Shift t l s th (.spawn w)
        ⟨l, s, th.withCall (some (.starting count (.spawning (i + 1)))), [.spawned w i],
          .newborn w⟩
  | knock (duty : th.duty = .client) :
      Shift t l s th .openRound ⟨l, s, th.withDuty (.opening .slot), [], .nobody⟩
  | seize {m} (move : m.calls = []) (duty : th.duty = .client ∨ th.duty = .opening .slot)
      (free : s = none) :
      Shift t l s th m ⟨l, some t, th.withDuty (.opening .ledger), [], .nobody⟩
  | reset (duty : th.duty = .opening .ledger) :
      Shift t l s th .advance
        ⟨l.openRound, s, th.withDuty (.opening .logging), [], .nobody⟩
  | opened (duty : th.duty = .opening .logging) :
      Shift t l s th .advance ⟨l, s, { th with duty := .client, round := some {} },
        [.opened], .nobody⟩
  | submit {r jobs} (duty : th.duty = .client) (round : th.round = some r)
      (some_job : jobs ≠ []) :
      Shift t l s th (.add jobs)
        ⟨l, s,
          { th with duty := .adding jobs,
                    round := some { added := r.added + jobs.length } },
          [], .nobody⟩
  | push {jobs} (duty : th.duty = .adding jobs) : Shift t l s th .advance
      ⟨l.push jobs, s, th.withDuty (.rousing (jobs.length != 1)), [.added jobs], .nobody⟩
  | rouseAll (duty : th.duty = .rousing true) :
      Shift t l s th .advance ⟨l, s, th.withDuty .client, [], .everyone⟩
  | rouseOne {sleeper} (duty : th.duty = .rousing false) :
      Shift t l s th (.rouse sleeper) ⟨l, s, th.withDuty .client, [], .one sleeper⟩
  | retell {r v} (duty : th.duty = .client) (round : th.round = some r)
      (verdict : r.verdict = some v) :
      Shift t l s th .wait ⟨l, s, th, [.returned (.verdict v)], .nobody⟩
  | engage {m r why} (duty : th.duty = .client) (round : th.round = some r)
      (verdict : r.verdict = none)
      (move : m = .wait ∧ why = .waiting ∨ ∃ u, m = .close u ∧ why = .closing u) :
      Shift t l s th m ⟨l, s, th.withDuty (.looping (.owner why) .entering), [], .nobody⟩
  | dismiss {r v u} (duty : th.duty = .client) (round : th.round = some r)
      (verdict : r.verdict = some v) :
      Shift t l s th (.close u) ⟨l, s, th.withDuty (.releasing u), [], .nobody⟩
  | enter {role} (duty : th.duty = .looping role .entering) :
      Shift t l s th .advance
        ⟨l.enter, s, th.withDuty (.looping role .taking), [], .nobody⟩
  | quit (duty : th.duty = .looping .worker .taking) (flag : l.shuttingDown = true) :
      Shift t l s th .advance
        ⟨l, s, th.withDuty (.looping .worker (.leaving true)), [], .nobody⟩
  | take {role} (duty : th.duty = .looping role .taking)
      (stays : role = .worker → l.shuttingDown = false) (work : l.pending ≠ []) :
      Shift t l s th .advance
        ⟨l.take, s, th.withDuty (.looping role (.executing (.start l.batch))),
          [.took role l.batch], .nobody⟩
  | drain {why} (duty : th.duty = .looping (.owner why) .taking) (noWork : l.pending = [])
      (done : l.todo = 0) : Shift t l s th .advance
        ⟨l.closeRound, s, th.withDuty (.looping (.owner why) (.leaving l.allOk)),
          [.drained l.allOk], .nobody⟩
  | sleep {role} (duty : th.duty = .looping role .taking)
      (stays : role = .worker → l.shuttingDown = false) (noWork : l.pending = [])
      (undone : role ≠ .worker → l.todo ≠ 0) : Shift t l s th .advance
        ⟨l.fallAsleep, s, th.withDuty (.looping role .asleep), [], .nobody⟩
  | stir {role} (duty : th.duty = .looping role .asleep) :
      Shift t l s th .stir ⟨l, s, th.withDuty (.looping role .waking), [], .nobody⟩
  | wake {role} (duty : th.duty = .looping role .waking) :
      Shift t l s th .advance
        ⟨l.wakeUp, s, th.withDuty (.looping role .taking), [], .nobody⟩
  | work {role x y d e} (duty : th.duty = .looping role (.executing x))
      (step : x.step d = some (y, e)) : Shift t l s th (.work d)
        ⟨l, s, th.withDuty (.looping role (.executing y)), [.job e], .nobody⟩
  | finish {role x} (duty : th.duty = .looping role (.executing x))
      (finished : x.finished = true) :
      Shift t l s th .advance ⟨l, s, th.withDuty (.looping role (.reporting x.tally)),
        [.executed role x.tally], .nobody⟩
  | report {role tally} (duty : th.duty = .looping role (.reporting tally)) :
      Shift t l s th .advance
        ⟨l.report tally, s,
          th.withDuty
            (.looping role (if (l.report tally).todo = 0 then .rousing else .taking)),
          [.reported tally], .nobody⟩
  | announce {role} (duty : th.duty = .looping role .rousing) :
      Shift t l s th .advance ⟨l, s, th.withDuty (.looping role .taking), [], .everyone⟩
  | leave {role v} (duty : th.duty = .looping role (.leaving v)) :
      Shift t l s th .advance
        ⟨l.leave, s, th.withDuty (Pool.afterLoop v role), [], .nobody⟩
  | answer {v r} (duty : th.duty = .completing v .waiting) (round : th.round = some r) :
      Shift t l s th .advance
        ⟨l, s, { th with duty := .client, round := some { r with verdict := some v } },
          [.completed r.added v, .returned (.verdict v)], .nobody⟩
  | conclude {v u r} (duty : th.duty = .completing v (.closing u))
      (round : th.round = some r) :
      Shift t l s th .advance
        ⟨l, s,
          { th with duty := .releasing u, round := some { r with verdict := some v } },
          [.completed r.added v], .nobody⟩
  | release {u} (duty : th.duty = .releasing u) :
      Shift t l s th .advance
        ⟨l, none, { th with duty := .client, round := none }, [.closed], .nobody⟩

/-- The step of `t` from `p` to `q` has this upshot. -/
structure Turn (p : Pool J) (t : Nat) (q : Pool J) (es : List (Event J E))
    (o : Upshot J E) : Prop where
  events : es = o.events
  ledger : q.ledger = o.ledger
  slot : q.slot = o.slot
  self : q.thread t = o.thread
  others : ∀ u, u ≠ t → q.thread u = o.wake.touch u (p.thread u)
  fits : o.wake.Fits p

/-- A thread that does not move keeps what a touch does not change. -/
theorem Turn.same {α : Type} {f : Thread J → α} {p q : Pool J} {t u : Nat}
    {es : List (Event J E)} {o : Upshot J E} (ht : Turn p t q es o)
    (hr : ∀ th, f th.roused = f th) (hn : f { duty := .looping .worker .entering } = f {})
    (hu : u ≠ t) :
    f (q.thread u) = f (p.thread u) := by
  rw [ht.others u hu]
  exact Wake.apply_touch hr hn ht.fits u

theorem Turn.same_iff {P : Thread J → Prop} {p q : Pool J} {t u : Nat}
    {es : List (Event J E)} {o : Upshot J E} (ht : Turn p t q es o)
    (hr : ∀ th, P th.roused ↔ P th) (hn : P { duty := .looping .worker .entering } ↔ P {})
    (hu : u ≠ t) :
    P (q.thread u) ↔ P (p.thread u) := by
  rw [ht.same (fun th => propext (hr th)) (propext hn) hu]

def Turns (p : Pool J) (t : Nat) (m : Move J E) (q : Pool J) (es : List (Event J E)) :
    Prop :=
  ∃ o, Shift t p.ledger p.slot (p.thread t) m o ∧ Turn p t q es o

open Pool

variable {p q : Pool J} {t : Nat} {m : Move J E} {es : List (Event J E)}

theorem Turns.of_put {o : Upshot J E} (hs : Shift t p.ledger p.slot (p.thread t) m o)
    (he : es = o.events) (hl : q.ledger = o.ledger) (hsl : q.slot = o.slot)
    (hq : q.threads = put {} p.threads t o.thread) (hw : o.wake = .nobody) :
    Turns p t m q es := by
  refine ⟨o, hs, he, hl, hsl, ?_, fun u hu => ?_, by rw [hw]; trivial⟩
  · rw [thread, hq, getD_put, if_pos rfl]
  · rw [thread, hq, getD_put, if_neg hu, hw]
    rfl

theorem Turns.of_eq (hm : m.calls = []) (he : ∀ e ∈ es, e.clerical = true)
    (hl : q.ledger = p.ledger) (hsl : q.slot = p.slot) (hq : q.threads = p.threads) :
    Turns p t m q es := by
  refine ⟨_, .still hm he, rfl, hl, hsl, ?_, fun u _ => ?_, trivial⟩
  · rw [thread, hq, ← thread]
  · rw [thread, hq]
    rfl

theorem Turns.of_rouseAll {o : Upshot J E} (hs : Shift t p.ledger p.slot (p.thread t) m o)
    (he : es = o.events) (hl : q.ledger = o.ledger) (hsl : q.slot = o.slot)
    (hq : q.threads = put {} p.rouseAll.threads t o.thread) (hw : o.wake = .everyone) :
    Turns p t m q es := by
  refine ⟨o, hs, he, hl, hsl, ?_, fun u hu => ?_, by rw [hw]; trivial⟩
  · rw [thread, hq, getD_put, if_pos rfl]
  · rw [thread, hq, getD_put, if_neg hu, ← thread, thread_rouseAll, hw]
    rfl

theorem Thread.roused_eq_self {th : Thread J} (h : th.isAsleep = false) :
    th.roused = th := by
  unfold Thread.roused
  split
  · rename_i hd
    simp [Thread.isAsleep, hd] at h
  · rfl

theorem Turns.of_setCall (hm : m.calls = []) {c : Call} {c' : Option Call}
    (hc : (p.thread t).call = some c) (h : c ≠ .stopping .rousing)
    (h' : c' ≠ some (.stopping .rousing)) (he : ∀ e ∈ es, e.clerical = true)
    (hl : q.ledger = p.ledger) (hsl : q.slot = p.slot)
    (hq : q.threads = put {} p.threads t ((p.thread t).withCall c')) : Turns p t m q es :=
  .of_put (.clerical hm (fun hr => h (Option.some.inj (hc ▸ hr))) h' he) rfl hl hsl hq rfl

/-- The thread that rouses all sleepers is awake, so it is not among those touched. -/
theorem Turns.of_announce {d : Duty J} (ha : (p.thread t).isAsleep = false)
    {o : Upshot J E} (hs : Shift t p.ledger p.slot (p.thread t) m o) (he : o.events = [])
    (hl : o.ledger = p.ledger) (hsl : o.slot = p.slot)
    (hth : o.thread = (p.thread t).withDuty d) (hw : o.wake = .everyone) :
    Turns p t m (p.rouseAll.setDuty t d) [] := by
  refine .of_rouseAll hs he.symm hl.symm hsl.symm ?_ hw
  simp only [setDuty, setThread, thread_rouseAll, Thread.roused_eq_self ha, hth]

/-- Nobody sleeps, so nobody is touched. -/
theorem Turns.of_rouseNobody (hd : (p.thread t).duty = .rousing false)
    (nobody : p.nobodyAsleep = true) :
    Turns p t (.rouse none) (p.setDuty t .client) ([] : List (Event J E)) := by
  refine ⟨_, .rouseOne hd, rfl, rfl, rfl, ?_, fun u hu => ?_, fun u => ?_⟩
  · simp
  · simp [hu, Wake.touch]
  · exact isAsleep_of_nobodyAsleep nobody u

theorem Turns.of_rouseOne {u : Nat} (hd : (p.thread t).duty = .rousing false)
    (asleep : (p.thread u).isAsleep = true) :
    Turns p t (.rouse (some u)) ((p.setThread u (p.thread u).roused).setDuty t .client)
      ([] : List (Event J E)) := by
  -- The caller is awake, so two threads change.
  have hne : t ≠ u := by
    rintro rfl
    simp [Thread.isAsleep, hd] at asleep
  refine ⟨_, .rouseOne hd, rfl, rfl, rfl, ?_, fun v hv => ?_, asleep⟩
  · simp [thread_setThread, hne]
  · by_cases hvu : v = u
    · subst hvu
      simp [hv, Wake.touch]
    · simp [thread_setThread, hv, hvu, Ne.symm hvu, Wake.touch]

theorem DutyStep.turns {d : Duty J} (h : DutyStep p t d m q es)
    (hd : (p.thread t).duty = d) : Turns p t m q es := by
  cases h with
  | lockLedger => exact .of_eq rfl (by simp) rfl rfl rfl
  | knock => exact .of_put (.knock hd) rfl rfl rfl rfl rfl
  | seizeAtOnce _ free => exact .of_put (.seize rfl (.inl hd) free) rfl rfl rfl rfl rfl
  | decline | declineJob => exact .of_eq rfl (by simp [Event.clerical]) rfl rfl rfl
  | seize free => exact .of_put (.seize rfl (.inr hd) free) rfl rfl rfl rfl rfl
  | reset => exact .of_put (.reset hd) rfl rfl rfl rfl rfl
  | opened =>
    exact .of_put (.opened hd) rfl rfl rfl (threads_setRound_setDuty _ _ _ _) rfl
  | addNothing => exact .of_eq rfl (by simp) rfl rfl rfl
  | submit round some_job =>
    exact .of_put (.submit hd round some_job) rfl rfl rfl
      (threads_setRound_setDuty _ _ _ _) rfl
  | push => exact .of_put (.push hd) rfl rfl rfl rfl rfl
  | rouseAll =>
    exact .of_announce (by simp [Thread.isAsleep, hd]) (.rouseAll hd) rfl rfl rfl rfl rfl
  | rouseNobody nobody => exact .of_rouseNobody hd nobody
  | rouseOne asleep => exact .of_rouseOne hd asleep
  | retell round verdict =>
    exact ⟨_, .retell hd round verdict, rfl, rfl, rfl, rfl, fun _ _ => rfl, trivial⟩
  | engage round verdict =>
    exact .of_put (.engage hd round verdict (.inl ⟨rfl, rfl⟩)) rfl rfl rfl rfl rfl
  | dismiss round verdict => exact .of_put (.dismiss hd round verdict) rfl rfl rfl rfl rfl
  | @engageToClose _ u round verdict =>
    exact .of_put (.engage hd round verdict (.inr ⟨u, rfl, rfl⟩)) rfl rfl rfl rfl rfl
  | enter => exact .of_put (.enter hd) rfl rfl rfl rfl rfl
  | quit _ flag => exact .of_put (.quit hd flag) rfl rfl rfl rfl rfl
  | take _ stays work => exact .of_put (.take hd stays work) rfl rfl rfl rfl rfl
  | drain _ noWork done => exact .of_put (.drain hd noWork done) rfl rfl rfl rfl rfl
  | sleep _ stays noWork undone =>
    exact .of_put (.sleep hd stays noWork undone) rfl rfl rfl rfl rfl
  | stir => exact .of_put (.stir hd) rfl rfl rfl rfl rfl
  | wake => exact .of_put (.wake hd) rfl rfl rfl rfl rfl
  | work step => exact .of_put (.work hd step) rfl rfl rfl rfl rfl
  | finish finished => exact .of_put (.finish hd finished) rfl rfl rfl rfl rfl
  | report => exact .of_put (.report hd) rfl rfl rfl rfl rfl
  | announce =>
    exact .of_announce (by simp [Thread.isAsleep, hd]) (.announce hd) rfl rfl rfl rfl rfl
  | leave => exact .of_put (.leave hd) rfl rfl rfl rfl rfl
  | answer round =>
    exact .of_put (.answer hd round) rfl rfl rfl (threads_setRound_setDuty _ _ _ _) rfl
  | conclude round =>
    exact .of_put (.conclude hd round) rfl rfl rfl (threads_setRound_setDuty _ _ _ _) rfl
  | release =>
    exact .of_put (.release hd) rfl rfl rfl (threads_setRound_setDuty _ _ _ _) rfl

theorem Turns.of_spawn {w i count : Nat}
    (hc : (p.thread t).call = some (.starting count (.spawning i)))
    (fresh : p.threads.length ≤ w) :
    Turns p t (.spawn w)
      (({ p with roster := p.roster ++ [w] }.setThread w
          { duty := .looping .worker .entering }).setCall t
        (some (.starting count (.spawning (i + 1)))))
          ([.spawned w i] : List (Event J E)) := by
  have hnew : p.thread w = {} := by simp [thread, fresh]
  -- A thread that starts workers has met the pool, so it is not the new one.
  have hne : t ≠ w := by
    rintro rfl
    simp [hnew] at hc
  refine ⟨_, .spawn hc, rfl, rfl, rfl, ?_, fun u hu => ?_, hnew⟩
  · rw [setCall, thread_setThread_self, thread_setThread_of_ne _ hne]
    rfl
  · rw [setCall, thread_setThread_of_ne _ hu, thread_setThread]
    rfl

theorem CallStep.turns {c : Call} (h : CallStep p t c m q es)
    (hc : (p.thread t).call = some c) : Turns p t m q es := by
  cases h with
  | lockLedger | lockRoster => exact .of_eq rfl (by simp) rfl rfl rfl
  | configure => exact .of_put (.configure hc) rfl rfl rfl rfl rfl
  | spawn _ fresh => exact .of_spawn hc fresh
  | flag => exact .of_put (.flag hc) rfl rfl rfl rfl rfl
  | alarm =>
    refine .of_rouseAll (.alarm hc) rfl rfl rfl ?_ rfl
    simp only [setCall, setThread, thread_rouseAll]
  | _ =>
    exact .of_setCall rfl hc (by simp) (by simp) (by simp [Event.clerical]) rfl rfl rfl

theorem SoloStep.turns (h : SoloStep p t m q es) (hc : (p.thread t).call = none) :
    Turns p t m q es := by
  cases h with
  | begins r =>
    have hnew : some r.call ≠ some (.stopping .rousing) := by
      cases r <;> simp [Request.call]
    exact .of_put (.clerical rfl (by simp [hc]) hnew (by simp)) rfl rfl rfl rfl rfl
  | goesOn _ hd step => exact step.turns hd

/-- Every step is in the list. -/
theorem Pool.turns_of_step (h : p.step t m = some (q, es)) : Turns p t m q es := by
  cases hc : (p.thread t).call with
  | none => exact (soloStep_of_step hc h).turns hc
  | some c => exact (callStep_of_step hc h).turns hc

end CheckRounds
