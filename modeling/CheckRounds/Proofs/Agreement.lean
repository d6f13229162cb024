import CheckRounds.Proofs.DetachedRun
import CheckRounds.Proofs.CleanSlate
import CheckRounds.Proofs.Reopening
/-!
With and without a pool, a round comes to the same.

Both are compared with what the calls alone come to: the books on the round (`Account`),
and the courses of its jobs one after another. A detached round carries out a job when
it is added and a pool may do so at any later time, so the two histories differ, but not
in what was answered and logged.
-/

namespace CheckRounds

open Pool

variable {J E : Type} {t : Nat} {h k : List (Moment J E)} {script : List (Move J E)}

theorem length_answers_account (ok : J → Bool) (cs : List (RoundCall J)) :
    (account ok cs).answers.length = cs.countP RoundCall.isWait := by
  have drains : ∀ a : Account J, (a.drain ok).answers = a.answers := by
    intro a
    unfold Account.drain
    split <;> rfl
  induction cs using List.reverseRecOn with
  | nil => rfl
  | append_singleton cs c ih =>
    rw [account_append, List.countP_append, ← ih]
    cases c with
    | opening => rfl
    | add jobs => rfl
    | close => exact congrArg List.length (drains _)
    | wait =>
      have htold :
          ((account ok cs).call ok .wait).answers.length =
            (account ok cs).answers.length + 1 := by
        rw [Account.call, Account.tell, List.length_append, drains]
        rfl
      exact htold

/-- The jobs of a script, in the order in which they are added. -/
theorem jobs_of_script (script : List (Move J E)) (unwinding : Bool) :
    ((script ++ [Move.close unwinding]).flatMap Move.calls).flatMap RoundCall.jobs =
      script.flatMap Move.submitted := by
  have hclose : (Move.close unwinding : Move J E).submitted = [] := rfl
  simp only [List.flatMap_assoc, ← Move.submitted_eq, List.flatMap_append,
    List.flatMap_singleton, hclose, List.append_nil]

/-- Jobs that behave the same wherever and whenever they are carried out come to the
same with and without a pool. -/
theorem detached_agrees_with_pools (fates : J → Fate)
    (hscript : ∀ m ∈ script, m = .wait ∨ ∃ jobs, m = .add jobs) (unwinding : Bool) :
    -- If no job crashes at both points, the script can be followed to its end, without
    -- a pool and on a new one.
    ((∀ m ∈ script, ∀ j ∈ m.submitted, (fates j).Survivable) →
      (∃ (k : List (Moment J E)) (d : Detached J), Detached.Run t .new k d ∧
        d.closed = true ∧ asked k = script ++ [.close unwinding] ∧ Fated fates k) ∧
      ∀ n, ∃ (k : List (Moment J E)) (q : Pool J), Reached n k q ∧
        (∀ u, (q.thread u).round = none) ∧ asked k = script ++ [.close unwinding] ∧
        roundCalls k = .opening :: (script ++ [Move.close unwinding]).flatMap Move.calls ∧
        workersSpawned k = [] ∧ Fated fates k) ∧
    -- However it is followed, what was answered and logged is the same.
    ∀ (k : List (Moment J E)) d, Detached.Run t .new k d → d.closed = true →
      asked k = script ++ [.close unwinding] → Fated fates k →
      (answers k).length = (script.flatMap Move.calls).countP RoundCall.isWait ∧
      jobTrace k = (script.flatMap Move.submitted).flatMap (JobEvent.course fates) ∧
      ∀ n (h : List (Moment J E)) p k' q, Reached n h p →
        (∀ u, (p.thread u).round = none) → Run p k' q → (∀ u, (q.thread u).round = none) →
        roundCalls k' =
          .opening :: (script ++ [Move.close unwinding]).flatMap Move.calls →
        Fated fates k' →
        answers k' = answers k ∧ completions k' = completions k ∧
        (jobTrace k').Perm (jobTrace k) ∧ (jobsCalled k').Perm (jobsCalled k) ∧
        (p.Unstaffed → workersSpawned k' = [] → jobTrace k' = jobTrace k) := by
  refine ⟨fun hfates => ⟨?_, fun n => exists_run_alone n hscript hfates unwinding⟩, ?_⟩
  · obtain ⟨k, d, hk, hclosed, hperforms⟩ :=
      Detached.exists_run t hscript hfates unwinding
    exact ⟨k, d, hk, hclosed, hperforms.asked, hperforms.fated⟩
  · intro k d hk hclosed hasked hf
    have hcalls := hk.roundCalls_eq
    rw [hasked] at hcalls
    have hbooks := hk.keeps hf.follows
    have htrace := hk.jobTrace_eq hclosed hf
    have hjobs := jobs_of_script script unwinding
    rw [hcalls] at hbooks htrace
    rw [hjobs] at htrace
    refine ⟨?_, htrace, ?_⟩
    · rw [← hbooks.answers, length_answers_account]
      simp [RoundCall.isWait, Move.calls]
    · intro n h p k' q hp hnone hk' hnone' hcalls' hf'
      have hv : p.Vacant := ⟨hp.sound, hnone⟩
      have hq : q.Vacant := ⟨Run.sound hp.sound hk', hnone'⟩
      obtain ⟨hcompletions, hanswers⟩ := Run.account_of_vacant hv hk' hf'.follows hq
      rw [hcalls'] at hcompletions hanswers
      have hperm : (jobTrace k').Perm (jobTrace k) := by
        have hall := Run.perm_jobTrace hv hk' hq hf'
        rw [hcalls'] at hall
        rw [htrace, ← hjobs]
        exact hall
      refine ⟨hanswers.trans hbooks.answers, hcompletions.trans hbooks.completions,
        hperm, ?_, ?_⟩
      · rw [jobsCalled_eq, jobsCalled_eq]
        exact hperm.flatMap_right _
      · intro hunstaffed hspawned
        have hordered := Run.jobTrace_eq hv hunstaffed hk' hq hspawned hf'
        rw [hcalls'] at hordered
        rw [htrace, ← hjobs]
        exact hordered

/-- Job 8 crashes when it is called, and job 9 when it is released. -/
def mixedFates : Nat → Fate
  | 8 => ⟨.error (.made "eight"), none⟩
  | 9 => ⟨.ok true, some .other⟩
  | _ => ⟨.ok true, none⟩

def mixedScript : List (Move Nat Unit) := [.add [7, 8], .wait, .wait, .add [], .add [9]]

/-- Thread `t` carries out a job with this fate. -/
def fulfil (t : Nat) (fate : Fate) : List (Nat × Move Nat Unit) :=
  [(t, .work .proceed), (t, .work (.conclude fate.answer)),
    (t, .work (.discard fate.crash))] ++
    fate.payload?.toList.map fun _ => (t, .work .proceed)

/-- The script on a pool with a worker, which carries out the first job. -/
def mixedRound : List (Nat × Move Nat Unit) :=
  List.flatten [[(0, .request (.start 1))], onward 0 3, [(0, .spawn 1)], onward 0 4,
    [(0, .openRound)],
    onward 0 4, [(0, .add [7, 8])], onward 0 3, onward 1 4, [(0, .wait)], onward 0 4,
    fulfil 0 (mixedFates 8), fulfil 1 (mixedFates 7), onward 1 3, onward 0 9,
    [(0, .wait), (0, .add []), (0, .add [9])], onward 0 2,
    [(0, .rouse none), (0, .close true)], onward 0 4, fulfil 0 (mixedFates 9),
    onward 0 10]

def mixedRun : Pool Nat × List (Moment Nat Unit) := played 1 mixedRound

theorem mixedScript_agrees :
    ∃ (k : List (Moment Nat Unit)) (d : Detached Nat) (k' : List (Moment Nat Unit))
      (q : Pool Nat),
    Detached.Run 0 .new k d ∧ asked k = mixedScript ++ [.close true] ∧
    Reached 1 mixedRun.2 mixedRun.1 ∧
    Reached 3 k' q ∧ answers k = [false, false] ∧
    completions k = [(2, false), (3, false)] ∧
    jobsCalled mixedRun.2 = [8, 7, 9] ∧ jobsCalled k = [7, 8, 9] ∧
    jobTrace k' = jobTrace k := by
  have hscript : ∀ m ∈ mixedScript, m = .wait ∨ ∃ jobs, m = .add jobs := by
    simp [mixedScript]
  have hfates : ∀ m ∈ mixedScript, ∀ j ∈ m.submitted, (mixedFates j).Survivable := by
    simp [mixedScript, Move.submitted, mixedFates, Fate.Survivable]
  obtain ⟨hexists, hagree⟩ := detached_agrees_with_pools (t := 0) mixedFates hscript true
  obtain ⟨⟨k, d, hk, hclosed, hasked, hf⟩, hlone⟩ := hexists hfates
  obtain ⟨k', q, hk', hq, _, hcalls', hspawned', hf'⟩ := hlone 3
  obtain ⟨_, htrace, hpools⟩ := hagree k d hk hclosed hasked hf
  have hmixed : Reached 1 mixedRun.2 mixedRun.1 := .of_played (by decide +kernel)
  have hnew : ∀ n u, ((Pool.new n : Pool Nat).thread u).round = none := fun _ _ => rfl
  obtain ⟨hanswers, hcompletions, _⟩ :=
    hpools 1 [] _ mixedRun.2 mixedRun.1 (.nil _) (hnew 1) hmixed
    (noRound_of_all (by decide +kernel)) (by decide +kernel) (by decide +kernel)
  obtain ⟨_, _, _, _, hsame⟩ := hpools 3 [] _ k' q (.nil _) (hnew 3) hk' hq hcalls' hf'
  refine ⟨k, d, k', q, hk, hasked, hmixed, hk', ?_, ?_, by decide +kernel, ?_, ?_⟩
  · rw [← hanswers]
    decide +kernel
  · rw [← hcompletions]
    decide +kernel
  · rw [jobsCalled_eq, htrace]
    rfl
  · exact hsame (fun u stage hd => by cases hd) hspawned'

end CheckRounds
