import CheckRounds.Proofs.CleanSlate
import CheckRounds.Proofs.Pool.Opener
/-!
When a round is drained, as its calls have it.

A wait, or the close, drains the round if it comes after the opening or after an
addition; else the verdict of the last wait is at hand, is given again, and nothing
happens. So over the life of a round it is drained once, and once more for each addition
that comes after a wait. What is logged with each drain are the jobs added to the round
so far, and the verdict on those added since the drain before.
-/

namespace CheckRounds

open Pool

variable {J E : Type} {n t u : Nat} {h k : List (Moment J E)} {m : Move J E}
  {es : List (Event J E)} {p q : Pool J} {o : Upshot J E} {cs ds : List (RoundCall J)}

/-! ## What calls ask for -/

/-- After the call all jobs of the round are drained. -/
def RoundCall.settles : RoundCall J → Bool
  | .wait => true
  | .close => true
  | _ => false

/-- How often a call of the first kind is directly followed by one of the second kind. -/
def followUps (first second : RoundCall J → Bool) : List (RoundCall J) → Nat
  | a :: b :: cs => (first a && second b).toNat + followUps first second (b :: cs)
  | _ => 0

/-- How many drains the calls ask for: one for each wait or close that is not after
another one. -/
def drainsAsked (cs : List (RoundCall J)) : Nat :=
  followUps (fun c => !c.settles) RoundCall.settles cs

def RoundCall.isWait : RoundCall J → Bool
  | .wait => true
  | _ => false

def RoundCall.isAdd : RoundCall J → Bool
  | .add _ => true
  | _ => false

/-- How often jobs are added right after a wait. -/
def reopenings (cs : List (RoundCall J)) : Nat :=
  followUps RoundCall.isWait RoundCall.isAdd cs

/-- Whether nothing is left to drain after these calls. -/
def settled (cs : List (RoundCall J)) : Bool := cs.getLast?.all RoundCall.settles

theorem settled_concat (cs : List (RoundCall J)) (c : RoundCall J) :
    settled (cs ++ [c]) = c.settles := by
  simp [settled]

theorem followUps_concat {first second : RoundCall J → Bool} (cs : List (RoundCall J))
    (c : RoundCall J) :
    followUps first second (cs ++ [c]) =
      followUps first second cs + (cs.getLast?.any first && second c).toNat := by
  induction cs with
  | nil => rfl
  | cons a cs ih =>
    cases cs with
    | nil => simp [followUps]
    | cons b cs =>
      rw [List.cons_append] at ih
      simp only [List.cons_append, followUps, ih, List.getLast?_cons_cons]
      omega

theorem drainsAsked_concat (cs : List (RoundCall J)) (c : RoundCall J) :
    drainsAsked (cs ++ [c]) = drainsAsked cs + (!settled cs && c.settles).toNat := by
  rw [drainsAsked, followUps_concat, settled]
  cases cs.getLast? <;> rfl

theorem RoundCall.isWait_eq_settles {a : RoundCall J} (ha : a ≠ .close) :
    a.isWait = a.settles := by
  cases a with
  | close => exact absurd rfl ha
  | _ => rfl

theorem RoundCall.settles_of_isAdd {a : RoundCall J} (ha : a.isAdd = true) :
    a.settles = false := by
  cases a with
  | add => rfl
  | _ => cases ha

/-- From any call but the close on: a drain to start with unless that call settles the
round, and one for each time it is reopened. -/
theorem drainsAsked_cons_close (hcs : ∀ c ∈ cs, c = .wait ∨ c.isAdd = true)
    (a : RoundCall J) (ha : a ≠ .close) :
    drainsAsked (a :: cs ++ [.close]) = (!a.settles).toNat + reopenings (a :: cs) := by
  induction cs generalizing a with
  | nil => cases a <;> rfl
  | cons b cs ih =>
    have hb := hcs b List.mem_cons_self
    have hopen : b ≠ .close := by
      rintro rfl
      simp [RoundCall.isAdd] at hb
    have hrest := ih (fun c hc => hcs c (List.mem_cons_of_mem _ hc)) b hopen
    have hfirst : (!a.settles && b.settles).toNat + (!b.settles).toNat =
        (!a.settles).toNat + (a.isWait && b.isAdd).toNat := by
      rw [RoundCall.isWait_eq_settles ha]
      rcases hb with rfl | hb
      · cases a.settles <;> rfl
      · rw [RoundCall.settles_of_isAdd hb, hb]
        cases a.settles <;> rfl
    simp only [drainsAsked, reopenings, List.cons_append, followUps] at hrest ⊢
    omega

/-- From its opening to its close, a round is drained once, and once for each time it is
reopened. -/
theorem drainsAsked_life (hcs : ∀ c ∈ cs, c = .wait ∨ c.isAdd = true) :
    drainsAsked (.opening :: cs ++ [.close]) = 1 + reopenings cs := by
  rw [drainsAsked_cons_close hcs .opening nofun]
  cases cs <;> simp [reopenings, followUps, RoundCall.settles, RoundCall.isWait]

/-! ## Calls, drains, and the opener of the round -/

def Event.drains : Event J E → List Bool
  | .drained v => [v]
  | _ => []

/-- The verdicts of all drains. -/
def drains (h : List (Moment J E)) : List Bool := collect Event.drains h

theorem drains_of_clerical {es : List (Event J E)} (h : ∀ e ∈ es, e.clerical = true) :
    es.flatMap Event.drains = [] :=
  flatMap_of_clerical h fun e he => by
    cases e with
    | drained => cases he
    | _ => rfl

/-- The verdict of a drain that the thread has made and not logged. -/
def Thread.undelivered (th : Thread J) : List Bool :=
  match th.duty with
  | .looping (.owner _) (.leaving v) => [v]
  | .completing v _ => [v]
  | _ => []

theorem Thread.undelivered_roused (th : Thread J) :
    th.roused.undelivered = th.undelivered :=
  apply_roused (fun th role hd => by cases role <;> simp [undelivered, hd]) th

theorem Thread.undelivered_of_draining {th : Thread J} (h : th.draining = none) :
    th.undelivered = [] := by
  unfold undelivered
  split
  · rename_i hd
    simp [draining, hd] at h
  · rename_i hd
    simp [draining, hd] at h
  · rfl

/-- The thread closes its round. -/
def Thread.isClosing (th : Thread J) : Bool :=
  match th.duty with
  | .looping (.owner (.closing _)) _ => true
  | .completing _ (.closing _) => true
  | .releasing _ => true
  | _ => false

theorem Thread.isClosing_roused (th : Thread J) : th.roused.isClosing = th.isClosing :=
  apply_roused (fun th role hd => by
    cases role with
    | worker => simp [isClosing, hd]
    | owner why => cases why <;> simp [isClosing, hd]) th

/-- The drains so far are those that the calls ask for, up to the one that the opener of
the round is at; and what the opener knows of its round is what its last call has left
behind. -/
structure Tracks (cs : List (RoundCall J)) (logged : List (Nat × Bool))
    (drained told : List Bool) (th : Thread J) : Prop where
  count : logged.length + th.draining.toList.length = drainsAsked cs
  verdicts : drained = logged.map Prod.snd ++ th.undelivered
  settles : ∀ r, th.round = some r → settled cs = (r.verdict.isSome || th.draining.isSome)
  closing : th.round ≠ none → (cs.getLast? = some .close ↔ th.isClosing = true)
  told : ∀ r v, th.round = some r → r.verdict = some v → cs.getLast? = some .wait →
    told.getLast? = some v

variable {logged : List (Nat × Bool)} {drained told : List Bool} {th th' : Thread J}

theorem Tracks.congr (ht : Tracks cs logged drained told th)
    (hd : th'.draining = th.draining) (hr : th'.round = th.round)
    (hu : th'.undelivered = th.undelivered) (hc : th'.isClosing = th.isClosing) :
    Tracks cs logged drained told th' where
  count := by rw [hd]; exact ht.count
  verdicts := by rw [hu]; exact ht.verdicts
  settles r h := by rw [hd]; exact ht.settles r (hr ▸ h)
  closing h := by rw [hc]; exact ht.closing (hr ▸ h)
  told r v h := ht.told r v (hr ▸ h)

theorem Tracks.of_noRound (ht : Tracks cs logged drained told th) (hs : th.Sound)
    (hr : th.round = none) (hs' : th'.Sound) (hr' : th'.round = none) :
    Tracks cs logged drained told th' where
  count := by
    rw [hs'.draining_eq_none hr', ← hs.draining_eq_none hr]
    exact ht.count
  verdicts := by
    rw [Thread.undelivered_of_draining (hs'.draining_eq_none hr'),
      ← Thread.undelivered_of_draining (hs.draining_eq_none hr)]
    exact ht.verdicts
  settles r h := by cases hr'.symm.trans h
  closing h := absurd hr' h
  told r v h := by cases hr'.symm.trans h

theorem Tracks.of_quiet (ht : Tracks cs logged drained told th) (hm : m.calls = [])
    (he : es.flatMap Event.openings = [] ∧ es.flatMap Event.completions = [] ∧
      es.flatMap Event.answers = [] ∧ es.flatMap Event.drains = [])
    (hd : th'.draining = th.draining) (hr : th'.round = th.round)
    (hu : th'.undelivered = th.undelivered) (hclosing : th'.isClosing = th.isClosing) :
    Tracks (cs ++ (m.calls ++ es.flatMap Event.openings))
      (logged ++ es.flatMap Event.completions)
      (drained ++ es.flatMap Event.drains) (told ++ es.flatMap Event.answers) th' := by
  obtain ⟨ho, hc, ha, hdr⟩ := he
  simpa [hm, ho, hc, ha, hdr] using ht.congr hd hr hu hclosing

theorem Shift.drains_eq_nil {l : Ledger J} {s : Option Nat} (h : Shift t l s th m o)
    (hs : th.Sound) (hn : ¬ th.HasSlot) : o.events.flatMap Event.drains = [] := by
  cases h with
  | still _ hc | clerical _ _ _ hc => exact drains_of_clerical hc
  | drain hd => exact absurd (hs.undecided hd).hasSlot hn
  | _ => rfl

/-- While nothing is being drained, the drains are those that the calls ask for. -/
theorem Tracks.idle (ht : Tracks cs logged drained told th) (hd : th.draining = none) :
    logged.length = drainsAsked cs ∧ drained = logged.map Prod.snd ∧
      ∀ r, th.round = some r → settled cs = r.verdict.isSome := by
  have hcount := ht.count
  have hverdicts := ht.verdicts
  have hsettles := ht.settles
  rw [Thread.undelivered_of_draining hd, List.append_nil] at hverdicts
  simp only [hd, Option.toList_none, List.length_nil, Nat.add_zero, Option.isSome_none,
    Bool.or_false] at hcount hsettles
  exact ⟨hcount, hverdicts, hsettles⟩

theorem Tracks.of_idle (hd : th.draining = none) (hc : logged.length = drainsAsked cs)
    (hv : drained = logged.map Prod.snd)
    (hr : ∀ r, th.round = some r → settled cs = r.verdict.isSome)
    (hclosing : th.round ≠ none → (cs.getLast? = some .close ↔ th.isClosing = true))
    (ht : ∀ r v, th.round = some r → r.verdict = some v → cs.getLast? = some .wait →
      told.getLast? = some v) :
    Tracks cs logged drained told th where
  count := by simpa [hd] using hc
  verdicts := by rw [Thread.undelivered_of_draining hd, List.append_nil, hv]
  settles r h := by simpa [hd] using hr r h
  closing := hclosing
  told := ht

/-- After a call that starts no drain; `said` is what the call is told. -/
theorem Tracks.after_call {c : RoundCall J} {said : List Bool}
    (ht : Tracks cs logged drained told th) (hd : th.draining = none)
    (hd' : th'.draining = none) (hc : c.settles = true → settled cs = true)
    (hr : ∀ r, th'.round = some r → c.settles = r.verdict.isSome)
    (hclosing : c = .close ↔ th'.isClosing = true)
    (hsaid : ∀ r v, th'.round = some r → r.verdict = some v → c = .wait →
      said.getLast? = some v) :
    Tracks (cs ++ [c]) logged drained (told ++ said) th' := by
  obtain ⟨hcount, hverdicts, _⟩ := ht.idle hd
  have hnothing : (!settled cs && c.settles) = false := by
    cases h : c.settles with
    | false => exact Bool.and_false _
    | true => rw [hc h]; rfl
  apply Tracks.of_idle hd'
  · rw [drainsAsked_concat, hnothing]
    exact hcount
  · exact hverdicts
  · intro r hround
    rw [settled_concat]
    exact hr r hround
  · intro _
    rw [List.getLast?_concat, Option.some.injEq]
    exact hclosing
  · intro r v hround hverdict hlast
    rw [List.getLast?_concat, Option.some.injEq] at hlast
    rw [List.getLast?_append, hsaid r v hround hverdict hlast]
    rfl

/-- After the log of a drain; `said` is what the opener is told. -/
theorem Tracks.after_drain {r : Round} {v : Bool} {why : Occasion} {said : List Bool}
    (ht : Tracks cs logged drained told th) (hd : th.duty = .completing v why)
    (hr : th.round = some r) (hd' : th'.draining = none)
    (hr' : th'.round = some { r with verdict := some v })
    (hclosing : th'.isClosing = th.isClosing)
    (hsaid : cs.getLast? = some .wait → said.getLast? = some v) :
    Tracks cs (logged ++ [(r.added, v)]) drained (told ++ said) th' := by
  have hwhy : th.draining = some why := by simp [Thread.draining, hd]
  have hv : th.undelivered = [v] := by simp [Thread.undelivered, hd]
  have hcount := ht.count
  have hverdicts := ht.verdicts
  have hsettles := ht.settles r hr
  rw [hwhy] at hcount hsettles
  rw [hv] at hverdicts
  apply Tracks.of_idle hd'
  · simpa using hcount
  · simpa using hverdicts
  · intro r' hround
    obtain rfl := Option.some.inj (hr'.symm.trans hround)
    rw [hsettles]
    simp
  · intro _
    rw [hclosing]
    exact ht.closing (by simp [hr])
  · intro r' v' hround hverdict hlast
    obtain rfl := Option.some.inj (hr'.symm.trans hround)
    rw [List.getLast?_append, hsaid hlast, ← hverdict]
    rfl

/-- On the way through the loop nothing changes before the drain. -/
theorem Tracks.of_stage {role : Role} {a b : LoopStage J}
    (ht : Tracks cs logged drained told th) (hm : m.calls = [])
    (he : es.flatMap Event.openings = [] ∧ es.flatMap Event.completions = [] ∧
      es.flatMap Event.answers = [] ∧ es.flatMap Event.drains = [])
    (hd : th.duty = .looping role a) (ha : ∀ v, a ≠ .leaving v)
    (hb : ∀ v, b ≠ .leaving v) :
    Tracks (cs ++ (m.calls ++ es.flatMap Event.openings))
      (logged ++ es.flatMap Event.completions)
      (drained ++ es.flatMap Event.drains) (told ++ es.flatMap Event.answers)
      (th.withDuty (.looping role b)) := by
  apply ht.of_quiet hm he
  · cases role <;> simp [Thread.draining, hd]
  · rfl
  · cases role <;> simp [Thread.undelivered, hd, ha, hb]
  · rcases role with _ | _ | _ <;> simp [Thread.isClosing, hd]

/-- The drain itself: from here on the verdict is to be delivered. -/
theorem Tracks.of_drain {why : Occasion} {v : Bool}
    (ht : Tracks cs logged drained told th)
    (hd : th.duty = .looping (.owner why) .taking) :
    Tracks cs logged (drained ++ [v]) told
      (th.withDuty (.looping (.owner why) (.leaving v))) := by
  have hnothing : th.undelivered = [] := by simp [Thread.undelivered, hd]
  have hverdicts := ht.verdicts
  rw [hnothing, List.append_nil] at hverdicts
  have hdraining : (th.withDuty (.looping (.owner why) (.leaving v))).draining =
      th.draining := by
    simp [Thread.draining, hd]
  have hclosing : (th.withDuty (.looping (.owner why) (.leaving v))).isClosing =
      th.isClosing := by
    cases why <;> simp [Thread.isClosing, hd]
  refine ⟨?_, ?_, ?_, ?_, ht.told⟩
  · rw [hdraining]
    exact ht.count
  · rw [hverdicts]
    rfl
  · rw [hdraining]
    exact ht.settles
  · rw [hclosing]
    exact ht.closing

/-- The owner of an open round enters the loop, to drain the round for its call. -/
theorem Tracks.of_engage {r : Round} {why : Occasion} {c : RoundCall J}
    (ht : Tracks cs logged drained told th) (hd : th.draining = none)
    (hr : th.round = some r) (hverdict : r.verdict = none) (hc : c.settles = true)
    (hwhy : c = .close ↔
      (th.withDuty (.looping (.owner why) .entering)).isClosing = true) :
    Tracks (cs ++ [c]) logged drained told
      (th.withDuty (.looping (.owner why) .entering)) := by
  obtain ⟨hcount, hverdicts, hsettles⟩ := ht.idle hd
  have hopen : settled cs = false := by rw [hsettles r hr, hverdict]; rfl
  have hnothing : (th.withDuty (.looping (.owner why) .entering)).undelivered = [] := rfl
  refine ⟨?_, ?_, ?_, ?_, ?_⟩
  · rw [drainsAsked_concat, hopen, hc, hcount]
    rfl
  · rw [hnothing, List.append_nil, hverdicts]
  · intro r' _
    rw [settled_concat, hc]
    simp [Thread.draining]
  · intro _
    rw [List.getLast?_concat, Option.some.injEq]
    exact hwhy
  · intro r' v hr' hv
    rw [← Option.some.inj (hr.symm.trans hr'), hverdict] at hv
    cases hv

/-- What a moment of the opener of the round adds to the calls, to the log and to the
answers. -/
theorem Shift.tracks {l : Ledger J} {s : Option Nat} (h : Shift t l s th m o)
    (ht : Tracks cs logged drained told th) :
    Tracks (cs ++ (m.calls ++ o.events.flatMap Event.openings))
      (logged ++ o.events.flatMap Event.completions)
      (drained ++ o.events.flatMap Event.drains)
      (told ++ o.events.flatMap Event.answers) o.thread := by
  cases h with
  | still hm hc | clerical hm _ _ hc =>
    exact ht.of_quiet hm ⟨openings_of_clerical hc, completions_of_clerical hc,
      answers_of_clerical hc, drains_of_clerical hc⟩ rfl rfl rfl rfl
  | configure | flag | spawn => exact ht.of_quiet rfl ⟨rfl, rfl, rfl, rfl⟩ rfl rfl rfl rfl
  | alarm =>
    exact ht.of_quiet rfl ⟨rfl, rfl, rfl, rfl⟩ (Thread.draining_roused th)
      (Thread.round_roused th)
      (Thread.undelivered_roused th) (Thread.isClosing_roused th)
  | opened hd =>
    change Tracks (cs ++ [.opening]) (logged ++ []) (drained ++ []) (told ++ []) _
    rw [List.append_nil logged, List.append_nil drained]
    apply ht.after_call (by simp [Thread.draining, hd]) rfl (by simp [RoundCall.settles])
    · intro r hr
      obtain rfl : {} = r := Option.some.inj hr
      rfl
    · simp [Thread.isClosing]
    · intro _ _ _ _ hwait
      cases hwait
  | @submit r jobs hd hr hj =>
    have hcalls : (Move.add jobs : Move J E).calls = [.add jobs] := by
      simp [Move.calls, hj]
    rw [hcalls]
    change Tracks (cs ++ [.add jobs]) (logged ++ []) (drained ++ []) (told ++ []) _
    rw [List.append_nil logged, List.append_nil drained]
    apply ht.after_call (by simp [Thread.draining, hd]) rfl (by simp [RoundCall.settles])
    · intro r' hr'
      obtain rfl := Option.some.inj hr'
      rfl
    · simp [Thread.isClosing]
    · intro _ _ _ _ hwait
      cases hwait
  | @retell r v hd hr hverdict =>
    have hnone : th.draining = none := by simp [Thread.draining, hd]
    obtain ⟨_, _, hsettles⟩ := ht.idle hnone
    change Tracks (cs ++ [.wait]) (logged ++ []) (drained ++ []) (told ++ [v]) th
    rw [List.append_nil logged, List.append_nil drained]
    apply ht.after_call hnone hnone
    · intro _
      rw [hsettles r hr, hverdict]
      rfl
    · intro r' hr'
      obtain rfl := Option.some.inj (hr.symm.trans hr')
      rw [hverdict]
      rfl
    · simp [Thread.isClosing, hd]
    · intro r' v' hr' hv' _
      obtain rfl := Option.some.inj (hr.symm.trans hr')
      exact hverdict.symm.trans hv'
  | @engage m r why hd hr hverdict hm =>
    have hnone : th.draining = none := by simp [Thread.draining, hd]
    obtain ⟨c, hcall, hc, hwhy⟩ : ∃ c, m.calls = [c] ∧ c.settles = true ∧
        (c = .close ↔
          (th.withDuty (.looping (.owner why) .entering)).isClosing = true) := by
      rcases hm with ⟨rfl, rfl⟩ | ⟨u, rfl, rfl⟩
      · exact ⟨.wait, rfl, rfl, by simp [Thread.isClosing]⟩
      · exact ⟨.close, rfl, rfl, by simp [Thread.isClosing]⟩
    rw [hcall]
    change Tracks (cs ++ [c]) (logged ++ []) (drained ++ []) (told ++ []) _
    simp only [List.append_nil]
    exact ht.of_engage hnone hr hverdict hc hwhy
  | @dismiss r v u hd hr hverdict =>
    have hnone : th.draining = none := by simp [Thread.draining, hd]
    obtain ⟨_, _, hsettles⟩ := ht.idle hnone
    change Tracks (cs ++ [.close]) (logged ++ []) (drained ++ []) (told ++ []) _
    rw [List.append_nil logged, List.append_nil drained]
    apply ht.after_call hnone rfl
    · intro _
      rw [hsettles r hr, hverdict]
      rfl
    · intro r' hr'
      obtain rfl := Option.some.inj (hr.symm.trans hr')
      rw [hverdict]
      rfl
    · simp [Thread.isClosing]
    · intro _ _ _ _ hwait
      cases hwait
  | @drain why hd =>
    change Tracks (cs ++ []) (logged ++ []) (drained ++ [l.allOk]) (told ++ []) _
    simp only [List.append_nil]
    exact ht.of_drain hd
  | @answer v r hd hr =>
    change Tracks (cs ++ []) (logged ++ [(r.added, v)]) (drained ++ []) (told ++ [v]) _
    rw [List.append_nil cs, List.append_nil drained]
    exact ht.after_drain hd hr rfl rfl (by simp [Thread.isClosing, hd]) fun _ => rfl
  | @conclude v u r hd hr =>
    have hclosing : th.isClosing = true := by simp [Thread.isClosing, hd]
    have hlast := (ht.closing (by simp [hr])).2 hclosing
    change Tracks (cs ++ []) (logged ++ [(r.added, v)]) (drained ++ []) (told ++ []) _
    rw [List.append_nil cs, List.append_nil drained]
    apply ht.after_drain hd hr rfl rfl
    · rw [hclosing]
      rfl
    · intro hwait
      cases hlast.symm.trans hwait
  | release hd =>
    obtain ⟨hcount, hverdicts, _⟩ := ht.idle (by simp [Thread.draining, hd])
    change Tracks (cs ++ []) (logged ++ []) (drained ++ []) (told ++ []) _
    simp only [List.append_nil]
    exact .of_idle rfl hcount hverdicts (fun r hr => by cases hr)
      (fun hr => absurd rfl hr)
      fun r v hr => by cases hr
  | @leave role v hd =>
    apply ht.of_quiet rfl ⟨rfl, rfl, rfl, rfl⟩
    · cases role <;> simp [Thread.draining, hd, afterLoop]
    · rfl
    · cases role <;> simp [Thread.undelivered, hd, afterLoop]
    · rcases role with _ | _ | _ <;> simp [Thread.isClosing, hd, afterLoop]
  | enter hd | take hd | sleep hd | stir hd | wake hd | work hd | finish hd
  | announce hd =>
    exact ht.of_stage rfl ⟨rfl, rfl, rfl, rfl⟩ hd (by simp) (by simp)
  | report hd =>
    refine ht.of_stage rfl ⟨rfl, rfl, rfl, rfl⟩ hd (by simp) fun v => ?_
    split <;> simp
  | seize hm hd =>
    apply ht.of_quiet hm ⟨rfl, rfl, rfl, rfl⟩
    · rcases hd with hd | hd <;> simp [Thread.draining, hd]
    · rfl
    · rcases hd with hd | hd <;> simp [Thread.undelivered, hd]
    · rcases hd with hd | hd <;> simp [Thread.isClosing, hd]
  | push hd | reset hd | knock hd | rouseAll hd | rouseOne hd | quit hd =>
    apply ht.of_quiet rfl ⟨rfl, rfl, rfl, rfl⟩
    · simp [Thread.draining, hd]
    · rfl
    · simp [Thread.undelivered, hd]
    · simp [Thread.isClosing, hd]

/-! ## Runs -/

theorem Run.tracks (hv : p.Vacant) (hr : Run p h q) (t : Nat)
    (ht : q.slot = none ∨ q.slot = some t) :
    Tracks (roundCalls h) (completions h) (drains h) (answers h) (q.thread t) := by
  apply Run.opener_induct (p := p) (C := fun _ k th =>
    Tracks (roundCalls k) (completions k) (drains k) (answers k) th) hv _ _ _ _ _
      _ hr t ht
  · intro t
    have hnone := hv.noRound t
    exact .of_idle ((hv.sound.threads t).draining_eq_none hnone) rfl rfl
      (fun r hr => by simp [hnone] at hr)
      (fun hr => absurd hnone hr) fun r v hr => by simp [hnone] at hr
  · intro t k th
    have hd := Thread.draining_roused th
    have hr := Thread.round_roused th
    have hu := Thread.undelivered_roused th
    have hc := Thread.isClosing_roused th
    exact ⟨fun hk => hk.congr hd.symm hr.symm hu.symm hc.symm, fun hk =>
      hk.congr hd hr hu hc⟩
  · intro t k
    exact ⟨fun hk => hk.congr rfl rfl rfl rfl, fun hk => hk.congr rfl rfl rfl rfl⟩
  · intro k x t m o _ hk hs
    simpa [roundCalls, completions, drains, answers, Moment.calls] using hs.tracks hk
  · intro k x t u m o hx _ hk hs hn
    obtain ⟨hm, ho, hc, ha, _⟩ := hs.calls_eq_nil hn
    have hdrains := hs.drains_eq_nil ((hx.sound hv.sound).threads u) hn
    simpa [roundCalls, completions, drains, answers, Moment.calls] using
      hk.of_quiet hm ⟨ho, hc, ha, hdrains⟩ rfl rfl rfl rfl
  · intro k t u th th' hk hs hr hs' hr'
    exact hk.of_noRound hs hr hs' hr'

theorem Shift.added {l : Ledger J} {s : Option Nat} (h : Shift t l s th m o)
    (he : o.events.any Event.opensRound = false) {r' : Round}
    (hr' : o.thread.round = some r') :
    ∃ r, th.round = some r ∧ r'.added = r.added + m.submitted.length := by
  cases h with
  | still hm | clerical hm | seize hm =>
    exact ⟨r', hr', by simp [Move.submitted_of_calls hm]⟩
  | opened => simp [Event.opensRound] at he
  | submit _ hr =>
    obtain rfl := Option.some.inj hr'
    exact ⟨_, hr, rfl⟩
  | engage _ _ _ hm =>
    refine ⟨r', hr', ?_⟩
    rcases hm with ⟨rfl, rfl⟩ | ⟨u, rfl, rfl⟩ <;> rfl
  | answer _ hr | conclude _ hr =>
    obtain rfl := Option.some.inj hr'
    exact ⟨_, hr, rfl⟩
  | release => cases hr'
  | alarm => exact ⟨r', (Thread.round_roused th).symm.trans hr', rfl⟩
  | _ => exact ⟨r', hr', rfl⟩

/-- The opener of a round counts the jobs that it has added since it opened it. -/
theorem Run.added_since (hv : p.Vacant) (hr : Run p h q)
    (ht : q.slot = none ∨ q.slot = some t) {r : Round}
    (hround : (q.thread t).round = some r) :
    r.added = (jobsSubmitted (ofThread t (sinceOpening t h))).length := by
  have hcount : ∀ r, (q.thread t).round = some r →
      r.added = (jobsSubmitted (ofThread t (sinceOpening t h))).length := by
    apply Run.opener_induct (p := p) (C := fun t k th => ∀ r, th.round = some r →
      r.added = (jobsSubmitted (ofThread t (sinceOpening t k))).length) hv _ _ _ _ _
        _ hr t ht
    · intro t r hr
      simp [hv.noRound t] at hr
    · intro t k th
      rw [Thread.round_roused]
    · intro t k
      exact Iff.rfl
    · intro k x t m o _ hk hs r' hr'
      rw [sinceOpening]
      cases he : o.events.any Event.opensRound with
      | true =>
        -- The round has just been opened.
        rw [since_concat_of_marked he]
        cases hs with
        | opened =>
          obtain rfl := Option.some.inj hr'
          rfl
        | still _ hc | clerical _ _ _ hc =>
          obtain ⟨e, hmem, hopens⟩ := List.any_eq_true.1 he
          have hclerical := Event.not_startsAfresh_of_clerical (hc e hmem)
          cases hclerical.symm.trans (Event.startsAfresh_of_opensRound hopens)
        | _ => simp [Event.opensRound] at he
      | false =>
        obtain ⟨r, hr, hadded⟩ := hs.added he hr'
        rw [since_concat_of_not_marked fun _ => he, hadded, hk r hr]
        simp [jobsSubmitted, sinceOpening, ofThread_singleton]
    · intro k x t u m o _ hu hk _ _ r hr
      rw [sinceOpening, since_concat_of_not_marked fun h => absurd h hu, hk r hr]
      simp [sinceOpening, ofThread_singleton, hu]
    · intro k t u th th' _ _ _ _ hr' r hr
      cases hr'.symm.trans hr
  exact hcount r hround

/-! ## The drains of a pool -/

theorem Pool.exists_slot (p : Pool J) : ∃ t, p.slot = none ∨ p.slot = some t := by
  cases p.slot with
  | none => exact ⟨0, .inl rfl⟩
  | some t => exact ⟨t, .inr rfl⟩

/-- No thread drains a round. -/
def Pool.DrainsNone (p : Pool J) : Prop := ∀ u, (p.thread u).draining = none

theorem Pool.Vacant.drainsNone (hv : p.Vacant) : p.DrainsNone := by
  intro u
  exact (hv.sound.threads u).draining_eq_none (hv.noRound u)

theorem Run.drains_eq (hv : p.Vacant) (hr : Run p h q) (hq : q.DrainsNone) :
    (completions h).length = drainsAsked (roundCalls h) ∧
    drains h = (completions h).map Prod.snd := by
  obtain ⟨t, ht⟩ := q.exists_slot
  obtain ⟨hcount, hverdicts, _⟩ := (Run.tracks hv hr t ht).idle (hq t)
  exact ⟨hcount, hverdicts⟩

/-- Where a round is open, there was a call that opened it. -/
theorem Run.roundCalls_ne_nil (hv : p.Vacant) (hr : Run p h q)
    (hround : (q.thread t).round ≠ none) :
    roundCalls h ≠ [] := by
  induction hr with
  | nil => exact absurd (hv.noRound t) hround
  | @snoc q r h u m es _ last ih =>
    intro hnil
    simp only [roundCalls, List.flatMap_append, List.flatMap_singleton, Moment.calls,
      List.append_eq_nil_iff] at hnil
    obtain ⟨hbefore, _, hnow⟩ := hnil
    have hopens : es.any Event.opensRound = false := by
      apply List.any_eq_false.2
      intro e he hopens
      have hnone := List.flatMap_eq_nil_iff.1 hnow e he
      cases e with
      | opened => cases hnone
      | _ => cases hopens
    exact ih ((turns_of_step last).round_ne_none hround fun _ => hopens) hbefore

/-- A client with a round open has the verdict of the last drain at hand if its last
call was a wait, and else the round has yet to be drained. -/
theorem Reached.verdict_of_last (hr : Reached n h p) (hd : (p.thread t).duty = .client)
    {r : Round} (hround : (p.thread t).round = some r) :
    ((roundCalls h).getLast? = some .wait → ∃ v, r.verdict = some v ∧
      (answers h).getLast? = some v) ∧
      ((roundCalls h).getLast? ≠ some .wait → r.verdict = none) := by
  have hslot := (hr.sound.slot t).1 (.inl (by simp [hround]))
  have htracks := Run.tracks (.new n) hr t (.inr hslot)
  obtain ⟨_, _, hsettles⟩ := htracks.idle (by simp [Thread.draining, hd])
  have hverdict := hsettles r hround
  obtain ⟨c, hlast⟩ : ∃ c, (roundCalls h).getLast? = some c := by
    have hsome := Run.roundCalls_ne_nil (.new n) hr (t := t) (by simp [hround])
    exact ⟨_, List.getLast?_eq_getLast_of_ne_nil hsome⟩
  have hsettled : settled (roundCalls h) = c.settles := by
    rw [settled, hlast]
    rfl
  rw [hsettled] at hverdict
  constructor
  · intro hwait
    obtain rfl : c = .wait := Option.some.inj (hlast.symm.trans hwait)
    obtain ⟨v, hv⟩ := Option.isSome_iff_exists.1 hverdict.symm
    exact ⟨v, hv, htracks.told r v hround hv hwait⟩
  · intro hwait
    have hopen : c ≠ .close := by
      rintro rfl
      have hclosing := (htracks.closing (by simp [hround])).1 hlast
      simp [Thread.isClosing, hd] at hclosing
    have hunsettled : c.settles = false := by
      cases c with
      | wait => exact absurd hlast hwait
      | close => exact absurd rfl hopen
      | _ => rfl
    rw [hunsettled] at hverdict
    simpa using hverdict.symm

theorem Shift.jobs_of_completed {l : Ledger J} {s : Option Nat} (h : Shift t l s th m o)
    {jobs : Nat} {v : Bool} (hv : .completed jobs v ∈ o.events) :
    ∃ r, th.round = some r ∧ jobs = r.added := by
  cases h with
  | still _ hc | clerical _ _ _ hc => exact absurd (hc _ hv) (by simp [Event.clerical])
  | answer _ hr | conclude _ hr =>
    refine ⟨_, hr, ?_⟩
    simp only [List.mem_cons, Event.completed.injEq, reduceCtorEq, List.not_mem_nil,
      or_false] at hv
    exact hv.1
  | _ => simp at hv

theorem Run.drains_of_call {c : RoundCall J} (hr : Reached n h p) (hk : Run p k q)
    (hp : p.DrainsNone) (hq : q.DrainsNone) (hcall : roundCalls k = [c]) :
    (completions k).length = (!settled (roundCalls h) && c.settles).toNat ∧
      drains k = (completions k).map Prod.snd := by
  obtain ⟨hcount, hverdicts⟩ := Run.drains_eq (.new n) hr hp
  obtain ⟨hcount', hverdicts'⟩ := Run.drains_eq (.new n) (Run.trans hr hk) hq
  have hcalls : roundCalls (h ++ k) = roundCalls h ++ [c] := by
    rw [← hcall]
    exact List.flatMap_append
  simp only [completions, drains, collect_append, List.length_append,
    List.map_append] at *
  rw [hcalls, drainsAsked_concat] at hcount'
  rw [hverdicts] at hverdicts'
  exact ⟨by omega, List.append_cancel_left hverdicts'⟩

/-- A wait after a wait gives the same verdict and changes nothing, and neither does an
addition of nothing; a wait or a close after the opening or an addition drains the
round, and a close after a wait does not. Each drain is logged once, with the jobs added
to the round so far and the verdict on those added since the drain before. Over its life
a round is drained once, and once more for each time jobs are added right after a
wait. -/
theorem Reached.drains_as_called (hr : Reached n h p) :
    (∀ t, (p.thread t).isClient = true → (p.thread t).round ≠ none →
      p.step t (.add [] : Move J E) = some (p, []) ∧
      ((roundCalls h).getLast? = some .wait → ∃ v, (answers h).getLast? = some v ∧
        p.step t (.wait : Move J E) = some (p, [.returned (.verdict v)]) ∧
        ∀ u, p.step t (.close u : Move J E) = some (p.setDuty t (.releasing u), [])) ∧
      ((roundCalls h).getLast? ≠ some .wait →
        p.step t (.wait : Move J E) =
          some (p.setDuty t (.looping (.owner .waiting) .entering), []) ∧
        ∀ u, p.step t (.close u : Move J E) =
          some (p.setDuty t (.looping (.owner (.closing u)) .entering), []))) ∧
    (∀ (k : List (Moment J E)) q c, Run p k q → p.DrainsNone → q.DrainsNone →
      roundCalls k = [c] →
      (completions k).length = (!settled (roundCalls h) && c.settles).toNat ∧
      drains k = (completions k).map Prod.snd) ∧
    (∀ k t m es k' jobs v, h = k ++ ⟨t, m, es⟩ :: k' → .completed jobs v ∈ es →
      jobs = (jobsSubmitted (ofThread t (sinceOpening t k))).length ∧
      v = (outcomes (sinceDrain t k)).all Prod.snd ∧
      ((outcomes (sinceDrain t k)).map Prod.fst).Perm
        (jobsAdded (ofThread t (sinceDrain t k))) ∧
      ∀ w, .returned (.verdict w) ∈ es → w = v) ∧
    (∀ (k : List (Moment J E)) q cs, (∀ u, (p.thread u).round = none) → Run p k q →
      (∀ u, (q.thread u).round = none) → roundCalls k = .opening :: cs ++ [.close] →
      (∀ c ∈ cs, c = .wait ∨ c.isAdd = true) →
      q.ledger.roundsCompleted = p.ledger.roundsCompleted + (1 + reopenings cs) ∧
      (completions k).length = 1 + reopenings cs ∧
        drains k = (completions k).map Prod.snd) := by
  refine ⟨fun t hc hround => ?_,
    fun k q c hk hp hq => Run.drains_of_call hr hk hp hq, ?_, ?_⟩
  · obtain ⟨r, hround⟩ := Option.ne_none_iff_exists'.1 hround
    obtain ⟨hcall, hd⟩ := Thread.of_isClient hc
    obtain ⟨hcached, hopen⟩ := hr.verdict_of_last hd hround
    refine ⟨(DutyStep.addNothing hround).step hcall hd, fun hlast => ?_, fun hlast => ?_⟩
    · obtain ⟨v, hv, htold⟩ := hcached hlast
      exact ⟨v, htold, (DutyStep.retell hround hv).step hcall hd,
        fun u => (DutyStep.dismiss hround hv).step hcall hd⟩
    · have hv := hopen hlast
      exact ⟨(DutyStep.engage hround hv).step hcall hd,
        fun u => (DutyStep.engageToClose hround hv).step hcall hd⟩
  · rintro k t m es k' jobs v rfl hv
    have hsplit : k ++ ⟨t, m, es⟩ :: k' = (k ++ [⟨t, m, es⟩]) ++ k' := by simp
    rw [Reached, hsplit] at hr
    obtain ⟨q, hq, _⟩ := Run.of_append hr
    obtain ⟨hverdict, hperm, _, _, hsame, _⟩ := Reached.verdict_eq_conjunction hq hv
    obtain ⟨x, hx, o, hs, ht⟩ := Reached.last hq
    obtain ⟨r, hround, rfl⟩ := hs.jobs_of_completed (ht.events ▸ hv)
    have hslot := (hx.sound.slot t).1 (.inl (by simp [hround]))
    exact ⟨Run.added_since (.new n) hx (.inr hslot) hround, hverdict, hperm, hsame⟩
  · intro k q cs hp hk hq hcalls hcs
    have hv : p.Vacant := ⟨hr.sound, hp⟩
    have hq : q.Vacant := ⟨hk.sound hr.sound, hq⟩
    obtain ⟨hcount, hverdicts⟩ := Run.drains_eq hv hk hq.drainsNone
    rw [hcalls, drainsAsked_life hcs] at hcount
    rw [Run.roundsCompleted_of_vacant hv hk hq, hcount]
    exact ⟨rfl, rfl, hverdicts⟩

/-- A round with a job that fails, up to the first verdict. -/
def firstVerdict : List (Nat × Move Nat Unit) :=
  List.flatten [[(0, .openRound)], onward 0 4, [(0, .add [5])], onward 0 2,
    [(0, .rouse none), (0, .wait)], onward 0 4, carryOut 0 false, onward 0 9]

def firstVerdictRun : Pool Nat × List (Moment Nat Unit) := played 1 firstVerdict

/-- The verdict is asked for again, a job is added that passes, and the round is
closed. -/
def reopened : List (Nat × Move Nat Unit) :=
  List.flatten [firstVerdict, [(0, .wait), (0, .add []), (0, .wait), (0, .add [6])],
    onward 0 2,
    [(0, .rouse none), (0, .close false)], onward 0 4, carryOut 0 true, onward 0 10]

def reopenedRun : Pool Nat × List (Moment Nat Unit) := played 1 reopened

theorem reopened_drains_twice :
    Reached 1 firstVerdictRun.2 firstVerdictRun.1 ∧
    firstVerdictRun.1.step 0 (.wait : Move Nat Unit) =
      some (firstVerdictRun.1, [.returned (.verdict false)]) ∧
    Run (Pool.new 1) reopenedRun.2 reopenedRun.1 ∧
    roundCalls reopenedRun.2 =
      [.opening, .add [5], .wait, .wait, .wait, .add [6], .close] ∧
    completions reopenedRun.2 = [(1, false), (2, true)] ∧
    reopenedRun.1.ledger.roundsCompleted = 2 := by
  have hfirst : Reached 1 firstVerdictRun.2 firstVerdictRun.1 :=
    .of_played (by decide +kernel)
  have hall : Run (Pool.new 1) reopenedRun.2 reopenedRun.1 :=
    Reached.of_played (by decide +kernel)
  obtain ⟨hclient, _⟩ := Reached.drains_as_called hfirst
  obtain ⟨_, hcached, _⟩ := hclient 0 rfl (by decide +kernel)
  obtain ⟨v, hv, hwait, _⟩ := hcached rfl
  obtain rfl : false = v := Option.some.inj hv
  have hnew : Reached 1 ([] : List (Moment Nat Unit)) (Pool.new 1) := .nil (Pool.new 1)
  obtain ⟨_, _, _, hlife⟩ := Reached.drains_as_called hnew
  obtain ⟨hcount, _⟩ :=
    hlife reopenedRun.2 reopenedRun.1 [.add [5], .wait, .wait, .wait, .add [6]]
    (fun _ => rfl) hall (noRound_of_all (by decide +kernel)) (by decide +kernel)
      (by decide)
  exact ⟨hfirst, hwait, hall, by decide +kernel, by decide +kernel, hcount⟩

end CheckRounds
