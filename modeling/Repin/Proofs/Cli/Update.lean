/-
  Repin.Proofs.Cli.Update
  ───────────────────────
  **AN UPDATE ON THE COMMAND LINE.**

  An update that is accepted ends in one of three ways: with status 0 and the outcome, with
  status 1 and an error message, or with a failure that is passed on as it is.  The third
  way is taken exactly for the failures of `Update.Escapes`, and then no file has changed
  and no command was started (`run_update`).  A manifest that is not there is such a failure
  (`update_passes_on`).
-/
import Repin.Proofs.Cli.Accepted
import Repin.Proofs.Update.Escaping

namespace Repin
namespace Cli

variable {env : List (Text × Text)} {s : Site} {args : List Text} {l : Line} {c : Config}

/-! ## §1. The three ways to end. -/

/-- The line that is printed for an outcome. -/
def verdict (outcome : Outcome) : Event := .printed ("Outcome: " ++ outcome.name ++ ['\n'])

/-- An accepted update is run and reported on. -/
theorem Accepts.on_update (h : Accepts s .update args l) (hc : updateConfig env s l = .ok c) :
    Job.on (run env ("update" :: args)) s
      = Job.on (reporting (update c (l.has "--skip-publish"))) s := by
  show Job.on (run env (Command.update.name :: args)) s = _
  rw [h.on_run env]
  unfold carryOut
  simp only [hc]
  rw [Job.on_bind_ok (Job.on_ofExcept_ok _ c s)]

/-- **An update on the command line** prints its outcome, or reports an error, or passes on a
failure that escapes, with nothing done. -/
theorem run_update (h : Accepts s .update args l) (hc : updateConfig env s l = .ok c) :
    (∃ outcome t, Job.on (Update.run c (l.has "--skip-publish")) s = (.ok outcome, t)
        ∧ Job.on (run env ("update" :: args)) s
          = (.ok 0, { t with log := t.log ++ [verdict outcome] }))
      ∨ (∃ f t, Job.on (Update.run c (l.has "--skip-publish")) s = (.error f, t)
        ∧ (∀ g, ¬ Update.Escapes c s g)
        ∧ Job.on (run env ("update" :: args)) s
          = (.ok 1, { t with log := t.log ++ [complaint f] }))
      ∨ ∃ f t, Job.on (Update.run c (l.has "--skip-publish")) s = (.error f, t)
        ∧ Update.Escapes c s f
        ∧ Job.on (run env ("update" :: args)) s = (.error f, t)
        ∧ t.tree = s.tree ∧ t.calls = s.calls := by
  rw [h.on_update hc, on_reporting]
  unfold update
  rw [Job.on_bind]
  rcases hrun : Job.on (Update.run c (l.has "--skip-publish")) s with ⟨f | outcome, t⟩
  · by_cases hf : Update.Escapes c s f
    · obtain ⟨-, hcalls, htree⟩ := hf.on_run (l.has "--skip-publish")
      rw [hrun] at hcalls htree
      refine .inr (.inr ⟨f, t, rfl, hf, ?_, htree, hcalls⟩)
      show (if f.isReported = true then _ else _) = _
      rw [if_neg (Bool.eq_false_iff.1 hf.not_isReported)]
    · have hreported := Update.isReported_of_run (congrArg Prod.fst hrun) hf
      refine .inr (.inl ⟨f, t, rfl, fun g hg => ?_, ?_⟩)
      · -- Only one failure ends a run, and this one does not escape.
        have hg' := (hg.on_run (l.has "--skip-publish")).1
        rw [hrun] at hg'
        cases hg'
        exact hf hg
      · show (if f.isReported = true then _ else _) = _
        rw [if_pos hreported]
  · exact .inl ⟨outcome, t, rfl, rfl⟩

/-! ## §2. Failures that are passed on. -/

/-- Without a manifest an update fails, and the failure escapes. -/
theorem update_of_noManifest :
    Accepts (.fresh []) .update [] ⟨[], []⟩
      ∧ ∃ c f, (updateConfig [] (.fresh []) ⟨[], []⟩).toOption = some c
        ∧ Update.Escapes c (.fresh []) f
        ∧ (Job.on (run [] ["update"]) (.fresh [])).1 = .error f
        ∧ (Job.on (run [] ["update"]) (.fresh [])).2.calls = [] := by
  have haccepts : Accepts (.fresh []) .update [] ⟨[], []⟩ := ⟨rfl, rfl, rfl, rfl⟩
  have hfails : (Job.on (run [] ["update"]) (.fresh [])).1.toOption = none := by
    decide
  obtain ⟨c, hc⟩ : ∃ c, updateConfig [] (.fresh []) ⟨[], []⟩ = .ok c := ⟨_, rfl⟩
  refine ⟨haccepts, c, ?_⟩
  rcases run_update haccepts hc with
    ⟨_, _, -, hrun⟩ | ⟨_, _, -, -, hrun⟩ | ⟨f, t, -, hf, hrun, -, hcalls⟩
  · rw [hrun] at hfails
    cases hfails
  · rw [hrun] at hfails
    cases hfails
  · refine ⟨f, congrArg Except.toOption hc, hf, congrArg Prod.fst hrun, ?_⟩
    rw [hrun]
    exact hcalls

/-- The message of the failure that an update without options passes on, if it passes one on. -/
def passedOn (s : Site) : Option Text :=
  ((errorOf? (Job.on (run [] ["update"]) s).1).filter (fun f => !f.isReported)).map Fault.message

/-- **Not every failure is reported**: not that there is no manifest, or that it is not in
UTF-8. -/
theorem update_passes_on :
    passedOn (.fresh []) = some ("[Errno 2] No such file or directory: '/Cargo.toml'" : Text)
      ∧ passedOn (.holding [0xff]) = some [] := by
  decide +kernel

end Cli
end Repin
