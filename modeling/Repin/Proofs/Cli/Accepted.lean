/-
  Repin.Proofs.Cli.Accepted
  ─────────────────────────
  **COMMAND LINES THAT ARE ACCEPTED.**

  `Accepts s c args l` says that the command `c` takes `args` and reads them as the line `l`:
  every option exists and has a value that will do, no argument is missing or left over, and
  no help is asked for.  What is accepted is carried out,

      Accepts s c args l  →  on (run env (c.name :: args)) s = on (carryOut env s c l) s ,

  and a command that is carried out ends with status 0 or, if it meets a fault that is
  reported, with status 1 behind the message (`on_reporting`).
-/
import Repin.Cli.Run
import Repin.Proofs.Job

namespace Repin
namespace Cli

/-- The command line behind the name of a command is accepted and read as `l`. -/
structure Accepts (s : Site) (c : Command) (args : List Text) (l : Line) : Prop where
  read : readLine (Level.command c).choices true args = .ok l
  proper : misuse? s c l = none
  /-- No help is asked for. -/
  plain : l.has "--help" = false
  /-- The root of the repository is a path that the system takes. -/
  usable : (l.value? "--repo-root").any (·.contains '\x00') = false

variable {env : List (Text × Text)} {s t : Site} {c : Command} {args : List Text} {l : Line}

/-- The name of a command is never taken for an option of the program. -/
theorem run_name (env : List (Text × Text)) (c : Command) (args : List Text) :
    run env (c.name :: args) = runCommand env c args := by
  cases c <;> rfl

/-- **A command line that is accepted is carried out.** -/
theorem Accepts.on_run (h : Accepts s c args l) (env : List (Text × Text)) :
    Job.on (run env (c.name :: args)) s = Job.on (carryOut env s c l) s := by
  rw [run_name]
  unfold runCommand
  simp only [h.read, h.plain, h.usable, Bool.false_eq_true, if_false]
  show Job.on (get >>= _) s = _
  rw [Job.on_bind_ok (Job.on_get s)]
  simp only [h.proper]

/-- The line that is printed for a fault that is reported. -/
def complaint (f : Fault) : Event := .warned ("ERROR: " ++ f.message ++ ['\n'])

/-- How a command ends, by how its job ends. -/
theorem on_reporting (job : Job Unit) (s : Site) :
    Job.on (reporting job) s = match Job.on job s with
      | (.ok _, t) => (.ok 0, t)
      | (.error f, t) =>
        if f.isReported then (.ok 1, { t with log := t.log ++ [complaint f] })
        else (.error f, t) := by
  unfold reporting
  rw [Job.on_tryCatch, Job.on_bind]
  rcases Job.on job s with ⟨f | u, t⟩
  · show Job.on (if f.isReported then _ else _) t = _
    by_cases hf : f.isReported = true
    · rw [if_pos hf]
      show _ = if f.isReported = true then _ else _
      rw [if_pos hf]
      rfl
    · rw [if_neg hf]
      show _ = if f.isReported = true then _ else _
      rw [if_neg hf]
      rfl
  · rfl

end Cli
end Repin
