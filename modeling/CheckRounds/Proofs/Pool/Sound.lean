import CheckRounds.Proofs.Pool.Count
/-!
The invariant of a pool.

`Pool.Sound` ties together what the parts of a pool say of each other: each duty comes
with the round that it needs, the slot names the one thread that has a round, `todo`
counts what waits and what is under way, and a round with nothing under way leaves the
ledger as a new round finds it. It holds of every state that can be reached
(`Reached.sound`).
-/

namespace CheckRounds

open Pool

variable {J E : Type}

namespace Thread

def Undecided (th : Thread J) : Prop := ∃ r, th.round = some r ∧ r.verdict = none

def Decided (th : Thread J) : Prop := ∃ r v, th.round = some r ∧ r.verdict = some v

end Thread

def LoopStage.Sound : LoopStage J → Prop
  | .executing x => 0 < x.size
  | .reporting tally => 0 < tally.executed
  | _ => True

namespace Thread

/-- What the duty of a thread says of its round. -/
def Sound (th : Thread J) : Prop :=
  match th.duty with
  | .client => True
  | .opening .slot => True
  | .opening _ => th.round = none
  | .adding jobs => jobs ≠ [] ∧ th.Undecided
  | .rousing _ => th.Undecided
  | .looping .worker stage => th.round = none ∧ stage.Sound
  | .looping (.owner _) stage => th.Undecided ∧ stage.Sound
  | .completing _ _ => th.Undecided
  | .releasing _ => th.Decided
  | .finished => th.round = none

/-- The thread has the slot: it has a round open, or is about to open one. -/
def HasSlot (th : Thread J) : Prop :=
  th.round ≠ none ∨ th.duty = .opening .ledger ∨ th.duty = .opening .logging

/-- Nothing of the round of the thread is under way: it is about to open, or it was
drained and nothing was added since. -/
def AtRest (th : Thread J) : Prop :=
  match th.duty with
  | .opening .ledger => True
  | .opening .logging => True
  | .looping (.owner _) (.leaving _) => True
  | .completing _ _ => True
  | _ => th.Decided

@[simp] theorem decided_withDuty (th : Thread J) (d : Duty J) :
    (th.withDuty d).Decided ↔ th.Decided := Iff.rfl

theorem Undecided.hasSlot {th : Thread J} (h : th.Undecided) : th.HasSlot := by
  obtain ⟨r, hr, _⟩ := h
  exact .inl (by simp [hr])

theorem Decided.hasSlot {th : Thread J} (h : th.Decided) : th.HasSlot := by
  obtain ⟨r, v, hr, _⟩ := h
  exact .inl (by simp [hr])

theorem Undecided.not_decided {th : Thread J} (h : th.Undecided) : ¬ th.Decided := by
  rintro ⟨r, v, hr, hv⟩
  obtain ⟨r', hr', hv'⟩ := h
  rw [hr, Option.some.injEq] at hr'
  rw [hr', hv'] at hv
  cases hv

theorem Sound.not_hasSlot {th : Thread J} {stage : LoopStage J} (h : th.Sound)
    (hd : th.duty = .looping .worker stage) : ¬ th.HasSlot := by
  simp only [Sound, hd] at h
  simp [HasSlot, hd, h.1]

theorem Sound.undecided {th : Thread J} {why : Occasion} {stage : LoopStage J}
    (h : th.Sound) (hd : th.duty = .looping (.owner why) stage) : th.Undecided := by
  simp only [Sound, hd] at h
  exact h.1

theorem Sound.stage {th : Thread J} {role : Role} {stage : LoopStage J} (h : th.Sound)
    (hd : th.duty = .looping role stage) : stage.Sound := by
  cases role <;> simp only [Sound, hd] at h <;> exact h.2

/-- A thread with nothing under way neither carries out a batch nor reports one. -/
theorem Sound.stage_of_inFlight {th : Thread J} {role : Role} {stage : LoopStage J}
    (h : th.Sound) (hf : th.inFlight = 0) (hd : th.duty = .looping role stage) :
    (∀ x, stage ≠ .executing x) ∧ ∀ tally, stage ≠ .reporting tally := by
  have hs := h.stage hd
  simp only [inFlight, hd] at hf
  refine ⟨?_, ?_⟩
  · rintro x rfl
    exact Nat.ne_of_gt hs hf
  · rintro tally rfl
    exact Nat.ne_of_gt hs hf

/-- Inside the loop, before the round is drained, no thread that has the slot is at
rest. -/
theorem Sound.not_slot_of_atRest {th : Thread J} {role : Role}
    {stage stage' : LoopStage J} {s : Option Nat} {t : Nat} (h : th.Sound)
    (hd : th.duty = .looping role stage) (hslot : th.HasSlot ↔ s = some t)
    (hn : ∀ v, stage' ≠ .leaving v)
    (ho : s = some t → (th.withDuty (.looping role stage')).AtRest) : s ≠ some t := by
  intro hst
  cases role with
  | worker => exact h.not_hasSlot hd (hslot.2 hst)
  | owner why =>
    have hrest := ho hst
    have hu : (th.withDuty (.looping (.owner why) stage')).Undecided := h.undecided hd
    cases stage' with
    | leaving v => exact hn v rfl
    | _ => exact hu.not_decided hrest

theorem sound_roused (th : Thread J) : th.roused.Sound ↔ th.Sound := by
  refine roused_iff (fun th role hd => ?_) th
  cases role <;> simp [Sound, hd, LoopStage.Sound, Undecided]

theorem hasSlot_roused (th : Thread J) : th.roused.HasSlot ↔ th.HasSlot :=
  roused_iff (fun th role hd => by simp [HasSlot, hd]) th

/-- Who sleeps has the loop as its duty, so being roused changes nothing about being at
rest. -/
theorem atRest_roused (th : Thread J) : th.roused.AtRest ↔ th.AtRest := by
  refine roused_iff (fun th role hd => ?_) th
  cases role <;> simp [AtRest, hd, Decided]

theorem steady_inFlight : Steady (J := J) Thread.inFlight where
  idle := rfl
  newborn := rfl
  roused := apply_roused fun th role hd => by simp [inFlight, hd]

end Thread

/-- What holds of a pool in every state that it can get into. -/
structure Pool.Sound (p : Pool J) : Prop where
  threads : ∀ u, (p.thread u).Sound
  /-- The slot names the thread that has a round open, or is about to open one. -/
  slot : ∀ u, (p.thread u).HasSlot ↔ p.slot = some u
  /-- Jobs of the round wait or are under way. -/
  todo : p.ledger.todo = p.ledger.pending.length + total Thread.inFlight p.threads
  /-- A round with nothing under way leaves nothing behind, and neither does a closed
  one. -/
  rest : (∀ u, p.slot = some u → (p.thread u).AtRest) → p.ledger.todo = 0 ∧
    p.ledger.allOk = true

/-! ## One step -/

variable {p q : Pool J} {t : Nat} {m : Move J E} {es : List (Event J E)} {o : Upshot J E}

theorem Shift.sound {l : Ledger J} {s : Option Nat} {th : Thread J}
    (h : Shift t l s th m o) (hs : th.Sound) (hfree : s = none → th.round = none) :
    o.thread.Sound := by
  cases h with
  | still => exact hs
  | clerical => exact hs
  | configure => exact hs
  | flag => exact hs
  | alarm => exact (Thread.sound_roused th).2 hs
  | spawn => exact hs
  | knock => trivial
  | seize _ _ free => exact hfree free
  | reset hd => simpa [Thread.Sound, hd] using hs
  | opened => trivial
  | submit _ _ hj => exact ⟨hj, _, rfl, rfl⟩
  | push hd =>
    simp only [Thread.Sound, hd] at hs
    exact hs.2
  | rouseAll => trivial
  | rouseOne => trivial
  | retell => exact hs
  | engage _ hr hv => exact ⟨⟨_, hr, hv⟩, trivial⟩
  | dismiss _ hr hv => exact ⟨_, _, hr, hv⟩
  | @enter role hd =>
    cases role <;> simp only [Thread.Sound, hd] at hs <;> exact ⟨hs.1, trivial⟩
  | quit hd =>
    simp only [Thread.Sound, hd] at hs
    exact ⟨hs.1, trivial⟩
  | @take role hd _ hw =>
    have hb : 0 < (Execution.start l.batch).size := by
      rw [Execution.size_start]
      exact List.length_pos_iff.2 (Ledger.batch_ne_nil hw)
    cases role <;> simp only [Thread.Sound, hd] at hs <;> exact ⟨hs.1, hb⟩
  | drain hd =>
    simp only [Thread.Sound, hd] at hs
    exact ⟨hs.1, trivial⟩
  | @sleep role hd =>
    cases role <;> simp only [Thread.Sound, hd] at hs <;> exact ⟨hs.1, trivial⟩
  | @stir role hd =>
    cases role <;> simp only [Thread.Sound, hd] at hs <;> exact ⟨hs.1, trivial⟩
  | @wake role hd =>
    cases role <;> simp only [Thread.Sound, hd] at hs <;> exact ⟨hs.1, trivial⟩
  | @work role x y d e hd hx =>
    have hb : x.size = y.size := (Execution.size_step hx).symm
    cases role <;> simp only [Thread.Sound, LoopStage.Sound, hd, hb] at hs <;> exact hs
  | @finish role x hd hx =>
    have hb : x.size = x.tally.executed := by
      rw [Execution.size, Execution.unfinished_of_finished hx, Nat.add_zero]
    cases role <;> simp only [Thread.Sound, LoopStage.Sound, hd, hb] at hs <;> exact hs
  | @report role tally hd =>
    cases role <;> simp only [Thread.Sound, hd] at hs <;> refine ⟨hs.1, ?_⟩ <;> split <;>
      trivial
  | @announce role hd =>
    cases role <;> simp only [Thread.Sound, hd] at hs <;> exact ⟨hs.1, trivial⟩
  | @leave role v hd => cases role <;> simp only [Thread.Sound, hd] at hs <;> exact hs.1
  | answer => trivial
  | conclude => exact ⟨_, _, rfl, rfl⟩
  | release => trivial

theorem Shift.slot {l : Ledger J} {s : Option Nat} {th : Thread J}
    (h : Shift t l s th m o) (hs : th.Sound) (hslot : th.HasSlot ↔ s = some t) :
    (o.thread.HasSlot ↔ o.slot = some t) ∧ ∀ u, u ≠ t →
    (o.slot = some u ↔ s = some u) := by
  cases h with
  | seize _ _ free =>
    refine ⟨by simp [Thread.HasSlot], fun u hu => ?_⟩
    simp [free, Ne.symm hu]
  | release hd =>
    have hr : th.round ≠ none := by
      simp only [Thread.Sound, hd] at hs
      obtain ⟨r, v, hr, _⟩ := hs
      simp [hr]
    refine ⟨by simp [Thread.HasSlot], fun u hu => ?_⟩
    simp [hslot.1 (.inl hr), Ne.symm hu]
  | alarm => exact ⟨(Thread.hasSlot_roused th).trans hslot, fun _ _ => Iff.rfl⟩
  | opened hd => exact ⟨by simpa [Thread.HasSlot, hd] using hslot, fun _ _ => Iff.rfl⟩
  | submit hd hr =>
    exact ⟨by simpa [Thread.HasSlot, hd, hr] using hslot, fun _ _ => Iff.rfl⟩
  | answer hd hr =>
    exact ⟨by simpa [Thread.HasSlot, hd, hr] using hslot, fun _ _ => Iff.rfl⟩
  | conclude hd hr =>
    exact ⟨by simpa [Thread.HasSlot, hd, hr] using hslot, fun _ _ => Iff.rfl⟩
  | still => exact ⟨hslot, fun _ _ => Iff.rfl⟩
  | clerical => exact ⟨hslot, fun _ _ => Iff.rfl⟩
  | configure => exact ⟨hslot, fun _ _ => Iff.rfl⟩
  | flag => exact ⟨hslot, fun _ _ => Iff.rfl⟩
  | spawn => exact ⟨hslot, fun _ _ => Iff.rfl⟩
  | retell => exact ⟨hslot, fun _ _ => Iff.rfl⟩
  | reset hd => exact ⟨by simpa [Thread.HasSlot, hd] using hslot, fun _ _ => Iff.rfl⟩
  | @leave role _ hd =>
    refine ⟨?_, fun _ _ => Iff.rfl⟩
    cases role <;> simpa [Thread.HasSlot, hd, afterLoop] using hslot
  | knock hd | push hd | rouseAll hd | rouseOne hd | engage hd | dismiss hd | enter hd
  | quit hd | take hd | drain hd | sleep hd | stir hd | wake hd | work hd | finish hd
  | report hd | announce hd =>
    exact ⟨by simpa [Thread.HasSlot, hd] using hslot, fun _ _ => Iff.rfl⟩

/-- What waits and what the moving thread has under way account for the change of
`todo`. -/
theorem Shift.todo {l : Ledger J} {s : Option Nat} {th : Thread J}
    (h : Shift t l s th m o) (hle : th.inFlight ≤ l.todo) :
    o.ledger.todo + th.inFlight + l.pending.length =
      l.todo + o.thread.inFlight + o.ledger.pending.length := by
  cases h with
  | @push jobs hd =>
    have hin : th.inFlight = 0 := by simp [Thread.inFlight, hd]
    change l.todo + jobs.length + th.inFlight + l.pending.length =
      l.todo + 0 + (l.pending ++ jobs).length
    rw [hin, List.length_append]
    omega
  | take hd =>
    have hin : th.inFlight = 0 := by simp [Thread.inFlight, hd]
    have hb : l.batch.length + l.take.pending.length = l.pending.length := by
      rw [← List.length_append, Ledger.batch_append_pending_take]
    change l.todo + th.inFlight + l.pending.length =
      l.todo + (Execution.start l.batch).size + l.take.pending.length
    rw [hin, Execution.size_start]
    omega
  | @work role x y d e hd hx =>
    have hin : th.inFlight = x.size := by simp [Thread.inFlight, hd]
    change l.todo + th.inFlight + l.pending.length = l.todo + y.size + l.pending.length
    rw [hin, Execution.size_step hx]
  | @finish role x hd hx =>
    have hin : th.inFlight = x.tally.executed := by
      simp [Thread.inFlight, hd, Execution.size, Execution.unfinished_of_finished hx]
    rw [hin]
    rfl
  | @report role tally hd =>
    have hin : th.inFlight = tally.executed := by simp [Thread.inFlight, hd]
    have hout : (th.withDuty (.looping role
        (if (l.report tally).todo = 0 then .rousing else .taking))).inFlight = 0 := by
      split <;> rfl
    change l.todo - tally.executed + th.inFlight + l.pending.length =
      l.todo + Thread.inFlight (th.withDuty _) + l.pending.length
    rw [hout]
    omega
  | alarm =>
    have hin : th.roused.inFlight = th.inFlight := Thread.steady_inFlight.roused th
    rw [← hin]
    rfl
  | @leave role v hd =>
    have hin : th.inFlight = 0 := by simp [Thread.inFlight, hd]
    rw [hin]
    cases role <;> rfl
  | still | clerical | configure | flag | spawn | retell => rfl
  | opened hd | submit hd | answer hd | conclude hd | reset hd | release hd | knock hd
  | rouseAll hd | rouseOne hd | engage hd | dismiss hd | enter hd | quit hd
  | drain hd | sleep hd | stir hd | wake hd | announce hd =>
    have hin : th.inFlight = 0 := by simp [Thread.inFlight, hd]
    rw [hin]
    rfl
  | seize _ hd =>
    have hin : th.inFlight = 0 := by rcases hd with hd | hd <;> simp [Thread.inFlight, hd]
    rw [hin]
    rfl

/-- A step of a thread keeps the ledger as a closed round leaves it, unless the round of
that very thread gets under way. -/
theorem Shift.rest {l : Ledger J} {s : Option Nat} {th : Thread J}
    (h : Shift t l s th m o) (hs : th.Sound) (hslot : th.HasSlot ↔ s = some t)
    (hle : th.inFlight ≤ l.todo) (ho : o.slot = some t → o.thread.AtRest)
    (hl : (s = some t → th.AtRest) → l.todo = 0 ∧ l.allOk = true) :
    o.ledger.todo = 0 ∧ o.ledger.allOk = true := by
  cases h with
  | still | clerical | configure | flag | spawn | retell => exact hl ho
  | alarm => exact hl fun hst => (Thread.atRest_roused th).1 (ho hst)
  | knock hd | dismiss hd => exact hl fun hst => by simpa [Thread.AtRest, hd] using ho hst
  | engage hd hr hv =>
    have hu : th.Undecided := ⟨_, hr, hv⟩
    exact absurd (ho (hslot.1 hu.hasSlot)) hu.not_decided
  | seize _ _ free => exact hl fun hst => by simp [free] at hst
  | reset hd => exact ⟨(hl fun _ => by simp [Thread.AtRest, hd]).1, rfl⟩
  | opened hd =>
    have hst := hslot.1 (.inr (.inr hd))
    exact absurd (ho hst) (Thread.Undecided.not_decided ⟨_, rfl, rfl⟩)
  | submit hd hr hj =>
    have hst := hslot.1 (.inl (by simp [hr]))
    exact absurd (ho hst) (Thread.Undecided.not_decided ⟨_, rfl, rfl⟩)
  | push hd =>
    simp only [Thread.Sound, hd] at hs
    have hu := hs.2
    exact absurd (ho (hslot.1 hu.hasSlot)) hu.not_decided
  | rouseAll hd | rouseOne hd =>
    simp only [Thread.Sound, hd] at hs
    exact absurd (ho (hslot.1 hs.hasSlot)) hs.not_decided
  | enter hd | sleep hd | stir hd | wake hd | work hd | finish hd | announce hd
  | take hd =>
    exact hl fun hst => absurd hst (hs.not_slot_of_atRest hd hslot (by simp) ho)
  | quit hd => exact hl fun hst => absurd (hslot.2 hst) (hs.not_hasSlot hd)
  | drain _ _ done => exact ⟨done, rfl⟩
  | @report role tally hd =>
    -- The report is of at least one job, so `todo` was not zero before.
    have hne : s ≠ some t := by
      refine hs.not_slot_of_atRest hd hslot (fun v => ?_) ho
      split <;> simp
    have hzero : l.todo = 0 := (hl fun hst => absurd hst hne).1
    have hpos : 0 < th.inFlight := by
      have hstage : 0 < tally.executed := hs.stage hd
      simpa [Thread.inFlight, hd] using hstage
    omega
  | @leave role v hd =>
    cases role with
    | worker => exact hl fun hst => absurd (hslot.2 hst) (hs.not_hasSlot hd)
    | owner why => exact hl fun _ => by simp [Thread.AtRest, hd]
  | answer hd | conclude hd => exact hl fun _ => by simp [Thread.AtRest, hd]
  | release hd =>
    simp only [Thread.Sound, hd] at hs
    exact hl fun _ => by simpa [Thread.AtRest, hd] using hs

theorem Pool.Sound.round_eq_none (h : p.Sound) (hs : p.slot = none) (u : Nat) :
    (p.thread u).round = none := by
  cases hr : (p.thread u).round with
  | none => rfl
  | some r =>
    have hslot := (h.slot u).1 (.inl (by simp [hr]))
    simp [hs] at hslot

theorem Pool.Sound.eq_of_hasSlot {u : Nat} (h : p.Sound) (hs : p.slot = some t)
    (hu : (p.thread u).HasSlot) : u = t := by
  have hsu := (h.slot u).1 hu
  rw [hs, Option.some.injEq] at hsu
  exact hsu.symm

theorem Pool.Sound.turn (h : p.Sound) (hs : Turns p t m q es) : q.Sound := by
  obtain ⟨o, hs, ht⟩ := hs
  have hle : (p.thread t).inFlight ≤ p.ledger.todo := by
    have := thread_le_total (p := p) Thread.steady_inFlight.idle t
    have := h.todo
    omega
  have hslot := hs.slot (h.threads t) (h.slot t)
  refine ⟨?_, ?_, ?_, ?_⟩
  · intro u
    by_cases hu : u = t
    · rw [hu, ht.self]
      exact hs.sound (h.threads t) fun hfree => h.round_eq_none hfree t
    · rw [ht.same_iff Thread.sound_roused (by simp [Thread.Sound, LoopStage.Sound]) hu]
      exact h.threads u
  · intro u
    by_cases hu : u = t
    · rw [hu, ht.self, ht.slot]
      exact hslot.1
    · rw [ht.same_iff Thread.hasSlot_roused (by simp [Thread.HasSlot]) hu, ht.slot]
      exact (h.slot u).trans (hslot.2 u hu).symm
  · have htodo := hs.todo hle
    have htotal := ht.total_threads Thread.steady_inFlight
    have := h.todo
    rw [ht.ledger]
    omega
  · intro hrest
    rw [ht.ledger]
    refine hs.rest (h.threads t) (h.slot t) hle ?_ ?_
    · intro hst
      rw [← ht.self]
      exact hrest t (by rw [ht.slot, hst])
    · -- If another thread has the slot, it had it before, and was at rest before.
      intro hown
      refine h.rest ?_
      intro u hu
      by_cases hut : u = t
      · rw [hut] at hu ⊢
        exact hown hu
      · have hq : q.slot = some u := by
          rw [ht.slot]
          exact (hslot.2 u hut).2 hu
        have hat := hrest u hq
        rwa [ht.same_iff Thread.atRest_roused (by simp [Thread.AtRest, Thread.Decided])
          hut] at hat

/-- A step either is made beside the round of another thread, or finds and leaves no
slot but its own. -/
theorem Turns.slot_cases (hs : Turns p t m q es) (hp : p.Sound) :
    (∃ u, u ≠ t ∧ p.slot = some u ∧ q.slot = some u ∧ ¬ (p.thread t).HasSlot) ∨
    (p.slot = none ∨ p.slot = some t) ∧ (q.slot = none ∨ q.slot = some t) := by
  obtain ⟨o, hs, ht⟩ := hs
  have hother := (hs.slot (hp.threads t) (hp.slot t)).2
  rw [← ht.slot] at hother
  have own_or_other : ∀ s : Option Nat, (∃ u, u ≠ t ∧ s = some u) ∨ s = none ∨
      s = some t := by
    intro s
    cases s with
    | none => exact .inr (.inl rfl)
    | some u =>
      by_cases hu : u = t
      · exact .inr (.inr (by rw [hu]))
      · exact .inl ⟨u, hu, rfl⟩
  rcases own_or_other p.slot with ⟨u, hu, hpu⟩ | hpt
  · refine .inl ⟨u, hu, hpu, (hother u hu).2 hpu, ?_⟩
    rw [hp.slot t, hpu, Option.some.injEq]
    exact hu
  · rcases own_or_other q.slot with ⟨u, hu, hqu⟩ | hqt
    · rw [(hother u hu).1 hqu] at hpt
      rcases hpt with hpt | hpt
      · cases hpt
      · exact absurd (Option.some.inj hpt) hu
    · exact .inr ⟨hpt, hqt⟩

theorem Pool.Sound.new (n : Nat) : (Pool.new n : Pool J).Sound where
  threads _ := trivial
  slot u := by simp [Pool.new, thread, Thread.HasSlot]
  todo := rfl
  rest _ := ⟨rfl, rfl⟩

/-- What holds at the start of a run and is kept by every step, in states with the
invariant, holds at its end. -/
theorem Run.induct {C : List (Moment J E) → Pool J → Prop} (hp : p.Sound) (start : C [] p)
    (next : ∀ {h p t m q es}, p.Sound → C h p → Turns p t m q es →
      C (h ++ [⟨t, m, es⟩]) q)
    {h : List (Moment J E)} (hr : Run p h q) : C h q := by
  have hboth : q.Sound ∧ C h q := by
    induction hr with
    | nil => exact ⟨hp, start⟩
    | snoc _ last ih =>
      obtain ⟨hs, hc⟩ := ih
      have ht := turns_of_step last
      exact ⟨hs.turn ht, next hs hc ht⟩
  exact hboth.2

/-- What holds of a new pool and is kept by every step, in states with the invariant,
holds of every run. -/
theorem Reached.induct {n : Nat} {C : List (Moment J E) → Pool J → Prop}
    (start : C [] (Pool.new n))
    (next : ∀ {h p t m q es}, p.Sound → C h p → Turns p t m q es →
      C (h ++ [⟨t, m, es⟩]) q)
    {h : List (Moment J E)} (hr : Reached n h p) : C h p :=
  Run.induct (.new n) start next hr

theorem Run.sound (hp : p.Sound) {h : List (Moment J E)} (hr : Run p h q) : q.Sound :=
  Run.induct (C := fun _ q => q.Sound) hp hp (fun _ hs ht => hs.turn ht) hr

theorem Reached.sound {n : Nat} {h : List (Moment J E)} (hr : Reached n h p) : p.Sound :=
  Run.sound (.new n) hr

theorem Reached.last {n : Nat} {h : List (Moment J E)}
    (hr : Reached n (h ++ [⟨t, m, es⟩]) q) :
    ∃ p, Reached n h p ∧ Turns p t m q es := by
  obtain ⟨p, hp, hstep⟩ := Run.of_concat hr
  exact ⟨p, hp, turns_of_step hstep⟩

end CheckRounds
