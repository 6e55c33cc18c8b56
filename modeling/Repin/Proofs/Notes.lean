/-
  Repin.Proofs.Notes
  ──────────────────
  **WHAT THE NOTES MAKE OF THE HISTORY.**

  The notes start two commands, the first for the tags and the second for the subjects of
  the commits.  What they make of the two outputs is computed:

    • `on_previousTag` — the first tag that names another release,
    • `on_changelog` — a line for each commit, or what kept one of the commands from giving
      its output,
    • `after_changelog` — nothing is left behind but the two calls.
-/
import Repin.Notes
import Repin.Proofs.Job

namespace Repin
namespace Notes

/-- The call for the tags, the newest version first. -/
def tagsCall (root : Path) : Call :=
  Job.gitCall ["tag", "--list", "--sort=-v:refname"] (some root) true

/-- The call for the subjects of the commits since a tag. -/
def commitsCall (root : Path) (since : Option Text) : Call :=
  Job.gitCall ["log", range since, "--pretty=format:%s"] (some root) true

/-- The subjects in an output. -/
def subjectsIn (log : Text) : List Text :=
  (Text.lines log).filter (fun s => !(Text.trimmed s).isEmpty)

/-- The changelog of two commands that end in the given ways. -/
def changesOf (root : Path) (version : Text) (first second : Exit) : Except Fault Text := do
  let since ← (Job.outputOf (tagsCall root) first).map
    (fun tags => previousOf version (Text.lines tags))
  let subjects ← (Job.outputOf (commitsCall root since) second).map subjectsIn
  return ['\n'].intercalate (bullets subjects)

theorem on_previousTag (root : Path) (version : Text) (s : Site) :
    Job.on (previousTag root version) s
      = ((Job.outputOf (tagsCall root) (Job.nextExit s.exits)).map
          (fun tags => previousOf version (Text.lines tags)),
        { s with exits := s.exits.tail, log := s.log ++ [.called (tagsCall root)] }) := by
  unfold previousTag tagsCall
  rw [Job.on_bind, Job.on_git]
  cases Job.outputOf (Job.gitCall ["tag", "--list", "--sort=-v:refname"] (some root) true)
    (Job.nextExit s.exits) <;> rfl

theorem on_subjects (root : Path) (since : Option Text) (s : Site) :
    Job.on (subjects root since) s
      = ((Job.outputOf (commitsCall root since) (Job.nextExit s.exits)).map subjectsIn,
        { s with exits := s.exits.tail, log := s.log ++ [.called (commitsCall root since)] }) := by
  unfold subjects commitsCall
  rw [Job.on_bind, Job.on_git]
  cases Job.outputOf (Job.gitCall ["log", range since, "--pretty=format:%s"] (some root) true)
    (Job.nextExit s.exits) <;> rfl

/-- **The changelog is made of the outputs of two commands.** -/
theorem on_changelog (root : Path) (version : Text) (s : Site) :
    (Job.on (changelog root version) s).1
      = (changesOf root version (Job.nextExit s.exits) (Job.nextExit s.exits.tail)).mapError
          (unreadable root) := by
  unfold changelog
  rw [Job.on_tryCatch_throw]
  apply congrArg (Except.mapError (unreadable root))
  refine Job.on_bind_fst (congrArg Prod.fst (on_previousTag root version s)) ?_
  intro since t ht
  have hexits : t.exits = s.exits.tail := by
    rw [on_previousTag] at ht
    exact (congrArg (fun p => p.2.exits) ht).symm
  rw [← hexits]
  exact Job.on_bind_fst (congrArg Prod.fst (on_subjects root since t)) (fun _ _ _ => rfl)

/-- The calls for a changelog: the second one is made behind the output of the first. -/
def callsOf (root : Path) (version : Text) (first : Exit) : List Call :=
  tagsCall root ::
    match Job.outputOf (tagsCall root) first with
    | .ok tags => [commitsCall root (previousOf version (Text.lines tags))]
    | .error _ => []

/-- **A changelog leaves nothing behind but its calls.** -/
theorem after_changelog (root : Path) (version : Text) (s : Site) :
    (Job.on (changelog root version) s).2
      = { s with exits := s.exits.drop (callsOf root version (Job.nextExit s.exits)).length
                 log := s.log
                  ++ (callsOf root version (Job.nextExit s.exits)).map Event.called } := by
  have hlog : ∀ a b : Call, s.log ++ [.called a] ++ [.called b]
      = s.log ++ [a, b].map Event.called := fun a b => List.append_assoc _ _ _
  have hexits : s.exits.tail.tail = s.exits.drop 2 := by
    rw [← List.drop_one, ← List.drop_one, List.drop_drop]
  unfold changelog callsOf
  rw [Job.on_tryCatch, Job.on_bind, on_previousTag]
  cases Job.outputOf (tagsCall root) (Job.nextExit s.exits) with
  | error f =>
    simp only [Except.map, Job.on_throw, List.length_singleton, List.drop_one]
    rfl
  | ok tags =>
    simp only [Except.map, Job.on_bind, on_subjects, hlog, hexits]
    cases Job.outputOf (commitsCall root (previousOf version (Text.lines tags)))
      (Job.nextExit s.exits.tail) with
    | error f => rfl
    | ok log => rfl

end Notes
end Repin
