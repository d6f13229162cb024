import CheckRounds.Proofs.Pool.Sound
/-!
Who has which lock.

A thread has the ledger only at points where its next step works with it and gives it
back, so nobody waits for anything while having it. The roster is kept over several
steps by those who start or stop workers, and these steps need at most the ledger. What
a step does with the two locks is listed in `LedgerGrip` and `RosterGrip`; `Pool.Locked`
is what follows for every state that can be reached.
-/

namespace CheckRounds

open Pool

variable {J E : Type} {n t u : Nat} {h : List (Moment J E)} {m : Move J E}
  {es : List (Event J E)} {p q : Pool J} {o : Upshot J E} {c : Call}

/-! ## The ledger -/

/-- What a step of `t` does with the lock of the ledger. -/
inductive LedgerGrip (p : Pool J) (t : Nat) (q : Pool J) : Prop where
  | take (need : (p.thread t).need = .ledger) (free : p.ledgerLock = none)
      (after : q = { p with ledgerLock := some t })
  | use (need : (p.thread t).need = .ledger) (mine : p.ledgerLock = some t)
      (given : q.ledgerLock = none)
  | wake (need : (p.thread t).need = .freeLedger) (free : p.ledgerLock = none)
      (taken : q.ledgerLock = some t) (next : (q.thread t).need = .ledger)
  | keep (need : (p.thread t).need ≠ .ledger) (kept : q.ledgerLock = p.ledgerLock)

/-- A call that has just been made. -/
def Call.fresh : Call → Bool
  | .starting _ .roster => true
  | .starting _ _ => false
  | .stopping .roster => true
  | .stopping _ => false
  | .measuring (some _) => false
  | _ => true

/-- What a step of `t` does with the locks if no call is under way; such a step may make
one. -/
structure SoloGrip (p : Pool J) (t : Nat) (q : Pool J) (es : List (Event J E)) :
    Prop where
  ledger : LedgerGrip p t q
  roster : q.roster = p.roster
  rosterLock : q.rosterLock = p.rosterLock
  begun : ∀ c, (q.thread t).call = some c →
    c.fresh = true ∧ (p.thread t).atLiberty = true ∧ (q.thread t).duty = (p.thread t).duty
  /-- The roster is emptied only by a call. -/
  collected : ∀ ws, .collected ws ∉ es

namespace SoloGrip

theorem of_duty (hl : LedgerGrip p t q) (hr : q.roster = p.roster)
    (hk : q.rosterLock = p.rosterLock) (hc : (q.thread t).call = none)
    (he : ∀ ws, .collected ws ∉ es) : SoloGrip p t q es :=
  ⟨hl, hr, hk, fun c hq => by simp [hc] at hq, he⟩

end SoloGrip

namespace Pool

theorem call_setDuty (hc : (p.thread t).call = none) (d : Duty J) :
    ((p.setDuty t d).thread t).call = none := by
  rw [setDuty, thread_setThread_self]
  exact hc

theorem call_setRound_setDuty (hc : (p.thread t).call = none) (r : Option Round)
    (d : Duty J) :
    (((p.setRound t r).setDuty t d).thread t).call = none :=
  call_setDuty (by rw [setRound, thread_setThread_self]; exact hc) d

theorem call_rouseAll (hc : (p.thread t).call = none) :
    (p.rouseAll.thread t).call = none := by
  rw [thread_rouseAll, Thread.call_roused, hc]

theorem need_setDuty (hc : (p.thread t).call = none) (d : Duty J) :
    ((p.setDuty t d).thread t).need = d.need := by
  rw [setDuty, thread_setThread_self]
  exact Thread.need_of_duty hc

theorem need_of_looping {role : Role} {stage : LoopStage J}
    (hc : (p.thread t).call = none) (hd : (p.thread t).duty = .looping role stage) :
    (p.thread t).need = stage.need := by
  rw [Thread.need_of_duty hc, hd, Duty.need]

theorem call_setThread_roused (hc : (p.thread t).call = none) (u : Nat) :
    ((p.setThread u (p.thread u).roused).thread t).call = none := by
  rw [thread_setThread]
  split
  · rename_i htu
    rw [Thread.call_roused, ← htu, hc]
  · exact hc

end Pool

theorem DutyStep.soloGrip {d : Duty J} (h : DutyStep p t d m q es)
    (hc : (p.thread t).call = none) (hd : (p.thread t).duty = d) : SoloGrip p t q es := by
  have hneed : (p.thread t).need = d.need := by rw [Thread.need_of_duty hc, hd]
  cases h with
  | lockLedger need free =>
    exact .of_duty (.take (hneed.trans need) free rfl) rfl rfl hc (by simp)
  | reset mine | push mine | enter mine | quit mine | take mine | drain mine | sleep mine
  | report mine | leave mine =>
    exact .of_duty (.use hneed mine rfl) rfl rfl (call_setDuty hc _) (by simp)
  | wake free =>
    -- It wakes up with the ledger, and keeps it for its next step.
    exact .of_duty (.wake hneed free rfl (need_setDuty hc _)) rfl rfl (call_setDuty hc _)
      (by simp)
  | decline | addNothing | retell =>
    exact .of_duty (.keep (by simp [hneed, Duty.need]) rfl) rfl rfl hc (by simp)
  | declineJob inJob =>
    -- A job asks for a round: there is one, and the answer needs no lock.
    refine .of_duty (.keep ?_ rfl) rfl rfl hc (by simp)
    simp [hneed, Duty.need, LoopStage.need, inJob]
  | knock | seizeAtOnce | seize | rouseNobody | engage | dismiss | engageToClose | stir =>
    exact .of_duty (.keep (by simp [hneed, Duty.need, LoopStage.need]) rfl) rfl rfl
      (call_setDuty hc _) (by simp)
  | work | finish =>
    refine .of_duty (.keep ?_ rfl) rfl rfl (call_setDuty hc _) (by simp)
    rw [hneed, Duty.need, LoopStage.need]
    split <;> simp
  | opened | submit | answer | conclude | release =>
    exact .of_duty (.keep (by simp [hneed, Duty.need]) rfl) rfl rfl
      (call_setRound_setDuty hc _ _) (by simp)
  | rouseAll | announce =>
    exact .of_duty (.keep (by simp [hneed, Duty.need, LoopStage.need]) rfl) rfl rfl
      (call_setDuty (call_rouseAll hc) _) (by simp)
  | rouseOne =>
    exact .of_duty (.keep (by simp [hneed, Duty.need]) rfl) rfl rfl
      (call_setDuty (call_setThread_roused hc _) _) (by simp)

theorem Request.call_fresh (r : Request) : r.call.fresh = true := by cases r <;> rfl

theorem Pool.soloGrip_of_step (hc : (p.thread t).call = none)
    (h : p.step t m = some (q, es)) :
    SoloGrip p t q es := by
  cases soloStep_of_step hc h with
  | begins r liberty =>
    have hneed : (p.thread t).need ≠ .ledger := by simp [Thread.need_of_atLiberty liberty]
    refine ⟨.keep hneed rfl, rfl, rfl, ?_, by simp⟩
    intro c hcall
    rw [call_setCall] at hcall
    cases hcall
    exact ⟨r.call_fresh, liberty, by rw [setCall, thread_setThread_self]; rfl⟩
  | goesOn _ hd step => exact step.soloGrip hc hd

theorem CallStep.ledgerGrip (hc : (p.thread t).call = some c)
    (h : CallStep p t c m q es) :
    LedgerGrip p t q := by
  have hneed := Thread.need_of_call hc
  cases h with
  | lockLedger need free => exact .take (hneed.trans need) free rfl
  | lockRoster need => exact .keep (by simp [hneed, need]) rfl
  | configure mine | readBatchSize mine | measure mine | refuse mine | accept mine
  | logStart mine | flag mine => exact .use hneed mine rfl
  | _ => exact .keep (by simp [hneed, Call.need, StartStage.need, StopStage.need]) rfl

theorem Pool.ledgerGrip_of_step (h : p.step t m = some (q, es)) : LedgerGrip p t q := by
  cases hc : (p.thread t).call with
  | none => exact (soloGrip_of_step hc h).ledger
  | some c => exact (callStep_of_step hc h).ledgerGrip hc

/-! ## The roster -/

/-- The call starts or stops workers, and keeps the roster until it is done with it. -/
def Call.keepsRoster : Call → Bool
  | .starting _ .roster => false
  | .starting _ _ => true
  | .stopping .flagging => true
  | .stopping .rousing => true
  | .stopping .collecting => true
  | _ => false

def Thread.keepsRoster (th : Thread J) : Bool := th.call.any Call.keepsRoster

theorem Thread.keepsRoster_roused (th : Thread J) :
    th.roused.keepsRoster = th.keepsRoster := by
  simp [keepsRoster]

theorem Thread.keepsRoster_of_call {th : Thread J} (hc : th.call = some c) :
    th.keepsRoster = c.keepsRoster := by simp [keepsRoster, hc]

theorem Pool.keepsRoster_setCall (p : Pool J) (t : Nat) (c : Option Call) :
    ((p.setCall t c).thread t).keepsRoster = c.any Call.keepsRoster := by
  rw [setCall, thread_setThread_self]
  rfl

theorem Call.keepsRoster_of_fresh (h : c.fresh = true) : c.keepsRoster = false := by
  cases c with
  | starting count stage => cases stage <;> first | rfl | cases h
  | stopping stage => cases stage <;> first | rfl | cases h
  | _ => rfl

/-- What a step of `t` does with the lock of the roster. -/
inductive RosterGrip (p : Pool J) (t : Nat) (q : Pool J) : Prop where
  | take (need : (p.thread t).need = .roster) (free : p.rosterLock = none)
      (after : q = { p with rosterLock := some t })
  | seize (free : p.rosterLock = none) (taken : q.rosterLock = some t)
      (next : (q.thread t).keepsRoster = true)
  | give (mine : (p.thread t).keepsRoster = true ∨ p.rosterLock = some t)
      (given : q.rosterLock = none) (next : (q.thread t).keepsRoster = false)
  | keep (need : (p.thread t).need ≠ .roster) (kept : q.rosterLock = p.rosterLock)
      (next : (q.thread t).keepsRoster = (p.thread t).keepsRoster)

theorem CallStep.rosterGrip (hc : (p.thread t).call = some c)
    (h : CallStep p t c m q es) :
    RosterGrip p t q := by
  have hneed := Thread.need_of_call hc
  have hkeeps := Thread.keepsRoster_of_call hc
  cases h with
  | lockLedger need => exact .keep (by simp [hneed, need]) rfl rfl
  | lockRoster need free => exact .take (hneed.trans need) free rfl
  | countWorkers mine | count mine =>
    exact .give (.inr mine) rfl (keepsRoster_setCall _ _ _)
  | enterStart free | enterStop free => exact .seize free rfl (keepsRoster_setCall _ _ _)
  | endStart | collectNone | collect =>
    exact .give (.inl hkeeps) rfl (keepsRoster_setCall _ _ _)
  | _ =>
    exact .keep (by simp [hneed, Call.need, StartStage.need, StopStage.need]) rfl
      ((keepsRoster_setCall _ _ _).trans hkeeps.symm)

theorem SoloGrip.rosterGrip (hc : (p.thread t).call = none) (h : SoloGrip p t q es) :
    RosterGrip p t q := by
  have hbefore : (p.thread t).keepsRoster = false := by simp [Thread.keepsRoster, hc]
  have hafter : (q.thread t).keepsRoster = false := by
    cases hq : (q.thread t).call with
    | none => simp [Thread.keepsRoster, hq]
    | some c =>
      rw [Thread.keepsRoster_of_call hq, Call.keepsRoster_of_fresh (h.begun c hq).1]
  refine .keep ?_ h.rosterLock (hafter.trans hbefore.symm)
  rw [Thread.need_of_duty hc]
  exact Duty.need_ne_roster _

theorem Pool.rosterGrip_of_step (h : p.step t m = some (q, es)) : RosterGrip p t q := by
  cases hc : (p.thread t).call with
  | none => exact (soloGrip_of_step hc h).rosterGrip hc
  | some c => exact (callStep_of_step hc h).rosterGrip hc

/-! ## The locks of a pool -/

/-- Who has a lock is at a point where it needs it. Who starts or stops workers has the
roster. -/
structure Pool.Locked (p : Pool J) : Prop where
  ledger : ∀ v, p.ledgerLock = some v → (p.thread v).need = .ledger
  roster : ∀ v, p.rosterLock = some v → (p.thread v).keepsRoster = true ∨
    (p.thread v).need = .roster
  kept : ∀ v, (p.thread v).keepsRoster = true → p.rosterLock = some v

theorem Pool.Locked.new (n : Nat) : (Pool.new n : Pool J).Locked where
  ledger v hv := by cases hv
  roster v hv := by cases hv
  kept v hv := by cases hv

theorem Thread.need_roused {th : Thread J} (h : th.need ≠ .impulse) :
    th.roused.need = th.need := by
  unfold roused
  split
  · rename_i role hd
    -- A sleeper without a call needs an impulse, and a call needs what it needs, asleep
    -- or not.
    cases hc : th.call with
    | none => exact absurd (by simp [need, hc, hd, Duty.need, LoopStage.need]) h
    | some c => simp [need, hc]
  · rfl

/-- The steps of others neither bring about nor take away what a thread needs. -/
theorem Turn.need_of_ne (ht : Turn p t q es o) (hu : u ≠ t)
    (hn : (p.thread u).need ≠ .impulse) :
    (q.thread u).need = (p.thread u).need := by
  rw [ht.others u hu]
  cases hw : o.wake with
  | nobody => rfl
  | everyone => exact Thread.need_roused hn
  | one sleeper =>
    simp only [Wake.touch]
    split
    · exact Thread.need_roused hn
    · rfl
  | newborn v =>
    have hfits := ht.fits
    rw [hw] at hfits
    simp only [Wake.touch]
    split
    · rename_i huv
      have hnew : p.thread u = {} := huv ▸ hfits
      exact absurd (by rw [hnew]; rfl) hn
    · rfl

theorem Turn.keepsRoster_of_ne (ht : Turn p t q es o) (hu : u ≠ t) :
    (q.thread u).keepsRoster = (p.thread u).keepsRoster :=
  ht.same Thread.keepsRoster_roused rfl hu

theorem Pool.Locked.ledger_step (hl : p.Locked) (hg : LedgerGrip p t q)
    (ht : Turn p t q es o) (v : Nat) (hv : q.ledgerLock = some v) :
    (q.thread v).need = .ledger := by
  cases hg with
  | take need _ after =>
    rw [after] at hv ⊢
    obtain rfl := Option.some.inj hv
    exact need
  | use _ _ given => simp [given] at hv
  | wake _ _ taken next =>
    obtain rfl := Option.some.inj (taken.symm.trans hv)
    exact next
  | keep need kept =>
    have hneed := hl.ledger v (kept ▸ hv)
    have hvt : v ≠ t := fun hvt => need (hvt ▸ hneed)
    rw [ht.need_of_ne hvt (by simp [hneed]), hneed]

theorem Pool.Locked.roster_step (hl : p.Locked) (hg : RosterGrip p t q)
    (ht : Turn p t q es o) (v : Nat) (hv : q.rosterLock = some v) :
    (q.thread v).keepsRoster = true ∨ (q.thread v).need = .roster := by
  cases hg with
  | take need _ after =>
    rw [after] at hv ⊢
    obtain rfl := Option.some.inj hv
    exact .inr need
  | seize _ taken next =>
    obtain rfl := Option.some.inj (taken.symm.trans hv)
    exact .inl next
  | give _ given => simp [given] at hv
  | keep need kept next =>
    have hhas := hl.roster v (kept ▸ hv)
    by_cases hvt : v = t
    · subst hvt
      exact .inl (next.trans (hhas.resolve_right need))
    · rw [ht.keepsRoster_of_ne hvt]
      refine hhas.imp_right fun hneed => ?_
      rw [ht.need_of_ne hvt (by simp [hneed]), hneed]

theorem Pool.Locked.kept_step (hl : p.Locked) (hg : RosterGrip p t q)
    (ht : Turn p t q es o) (v : Nat) (hv : (q.thread v).keepsRoster = true) :
    q.rosterLock = some v := by
  have hown : v ≠ t → p.rosterLock = some v := fun hvt =>
    hl.kept v ((ht.keepsRoster_of_ne hvt).symm.trans hv)
  cases hg with
  | take need free after =>
    by_cases hvt : v = t
    · subst hvt
      rw [after]
    · cases free.symm.trans (hown hvt)
  | seize free taken =>
    by_cases hvt : v = t
    · rw [taken, hvt]
    · cases free.symm.trans (hown hvt)
  | give mine _ next =>
    -- The roster was with `t`, so with no other thread, and `t` has given it back.
    have hmine : p.rosterLock = some t := mine.elim (hl.kept t) id
    have hvt : v = t := by
      by_contra hvt
      exact hvt (Option.some.inj (hmine.symm.trans (hown hvt))).symm
    rw [hvt, next] at hv
    cases hv
  | keep _ kept next =>
    rw [kept]
    by_cases hvt : v = t
    · subst hvt
      exact hl.kept v (next.symm.trans hv)
    · exact hown hvt

theorem Pool.Locked.step (hl : p.Locked) (hstep : p.step t m = some (q, es)) :
    q.Locked := by
  obtain ⟨o, _, ht⟩ := turns_of_step hstep
  have hledger := ledgerGrip_of_step hstep
  have hroster := rosterGrip_of_step hstep
  exact ⟨hl.ledger_step hledger ht, hl.roster_step hroster ht, hl.kept_step hroster ht⟩

theorem Reached.locked (hr : Reached n h p) : p.Locked := by
  induction hr with
  | nil => exact .new n
  | snoc _ last ih => exact ih.step last

/-! ## What a thread lacks -/

/-- The thread needs a lock for its next step, and has yet to take it. -/
def Pool.Lacks (p : Pool J) (t : Nat) : Prop :=
  (p.thread t).need = .ledger ∧ p.ledgerLock ≠ some t ∨
    (p.thread t).need = .roster ∧ p.rosterLock ≠ some t

instance (p : Pool J) (t : Nat) : Decidable (p.Lacks t) :=
  inferInstanceAs (Decidable (_ ∨ _))

theorem LedgerGrip.mine_iff (hg : LedgerGrip p t q) (hu : u ≠ t) :
    q.ledgerLock = some u ↔ p.ledgerLock = some u := by
  cases hg with
  | take _ free after => simp [after, free, Ne.symm hu]
  | use _ mine given => simp [mine, given, Ne.symm hu]
  | wake _ free taken => simp [free, taken, Ne.symm hu]
  | keep _ kept => rw [kept]

theorem RosterGrip.mine_iff (hg : RosterGrip p t q) (hl : p.Locked) (hu : u ≠ t) :
    q.rosterLock = some u ↔ p.rosterLock = some u := by
  cases hg with
  | take _ free after => simp [after, free, Ne.symm hu]
  | seize free taken => simp [free, taken, Ne.symm hu]
  | give mine given =>
    have hmine : p.rosterLock = some t := mine.elim (hl.kept t) id
    simp [hmine, given, Ne.symm hu]
  | keep _ kept => rw [kept]

/-- No thread takes a lock for another one, nor takes one away from it. -/
theorem Pool.Locked.lacks_iff (hl : p.Locked) (hstep : p.step t m = some (q, es))
    (hu : u ≠ t) (hn : (p.thread u).need ≠ .impulse) : q.Lacks u ↔ p.Lacks u := by
  obtain ⟨o, _, ht⟩ := turns_of_step hstep
  rw [Lacks, Lacks, ht.need_of_ne hu hn, Ne, Ne, (ledgerGrip_of_step hstep).mine_iff hu,
    (rosterGrip_of_step hstep).mine_iff hl hu]

end CheckRounds
