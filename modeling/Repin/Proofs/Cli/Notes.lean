/-
  Repin.Proofs.Cli.Notes
  ──────────────────────
  **THE NOTES ON THE COMMAND LINE.**

  Whatever the history answers, the command for the notes prints them or says why it cannot
  read the history; it makes at most two calls and touches nothing else
  (`run_releaseNotes`).  Every version can be asked for, also one that looks like an option
  (`accepts_version`).
-/
import Repin.Proofs.Cli.Accepted
import Repin.Proofs.Notes.History

namespace Repin
namespace Cli

variable {env : List (Text × Text)} {s : Site} {args : List Text} {l : Line}

/-- The command takes one argument, the version. -/
theorem exists_version (h : misuse? s .releaseNotes l = none) :
    ∃ version, l.arguments = [version] := by
  unfold misuse? at h
  obtain ⟨hmissing, hextra⟩ := Option.or_eq_none_iff.1 h
  have hargs := (Option.or_eq_none_iff.1 hmissing).2
  cases hl : l.arguments with
  | nil =>
    rw [if_pos ⟨rfl, hl⟩] at hargs
    cases hargs
  | cons version rest =>
    rw [hl] at hextra
    cases rest with
    | nil => exact ⟨version, rfl⟩
    | cons a rest =>
      have hne : (version :: a :: rest).drop Command.releaseNotes.arguments ≠ [] :=
        List.cons_ne_nil a rest
      rw [if_neg hne] at hextra
      cases hextra

/-- Two dashes alone let every version through. -/
theorem accepts_version {root : Text} (hfile : namesFile s root = false)
    (hroot : root.contains '\x00' = false) (version : Text) :
    Accepts s .releaseNotes ["--repo-root", root, "--", version]
      ⟨[⟨"--repo-root", some root⟩], [version]⟩ where
  read := rfl
  proper := by
    have hgiven : Line.given ⟨[⟨"--repo-root", some root⟩], [version]⟩ = ["--repo-root".toList] :=
      rfl
    have hvalue : Line.value? "--repo-root" ⟨[⟨"--repo-root", some root⟩], [version]⟩ = some root :=
      rfl
    have hright : wrongValue? s "--repo-root" root = none := by
      unfold wrongValue?
      rw [if_pos rfl, hfile]
      rfl
    unfold misuse?
    rw [hgiven, List.findSome?_cons, hvalue, Option.bind_some, hright]
    rfl
  plain := rfl
  usable := by
    show root.contains '\x00' = false
    exact hroot

/-- The status that goes with what the notes give. -/
def statusOf : Except Fault Text → Nat
  | .ok _ => 0
  | .error _ => 1

/-- What is shown of what the notes give. -/
def shown : Except Fault Text → Event
  | .ok notes => .printed notes
  | .error f => complaint f

/-- All faults of the notes are reported. -/
theorem on_reporting_releaseNotes {root : Path} {version : Text} {result : Except Fault Text}
    {t : Site}
    (hon : Job.on (Notes.compose root version) s = (result, t))
    (hreported : ∀ f, result = .error f → f.isReported = true) :
    Job.on (reporting (releaseNotes root version)) s
      = (.ok (statusOf result), { t with log := t.log ++ [shown result] }) := by
  rw [on_reporting]
  unfold releaseNotes
  rw [Job.on_bind, hon]
  cases result with
  | ok notes => rfl
  | error f =>
    show (if f.isReported = true then _ else _) = _
    rw [if_pos (hreported f rfl)]
    rfl

/-- Its first tag looks like an option, and the second one is the version asked for. -/
def historySite : Site :=
  (Site.fresh []).exiting
    [.finished 0 "--all\n2.0.0\nv1.9.0\n", .finished 0 "feat: notes\n2.0.0\n"]

/-- What is printed of it, line by line: the one change, and how to install the plugin. -/
def historyLines : List String :=
  ["## Changes", "", "* feat: notes", ""]
    ++ ["## Install", "",
      "[Install](https://dprint.dev/install/) and [setup](https://dprint.dev/setup/) dprint.", "",
      "Then in your project's directory with a dprint.json file, run:", "",
      "\x60\x60\x60shellsession", "dprint config add biome", "\x60\x60\x60", "",
      "## JS Formatting API", "",
      "  * [JS Formatter](https://github.com/dprint/js-formatter) - Browser/Deno and Node",
      "  * [npm package](https://www.npmjs.com/package/@dprint/biome)"]

def historyNotes : Text := historyLines.flatMap (fun l => l.toList ++ ['\n'])

theorem composed_historyNotes :
    Notes.composed (Notes.changesIn "feat: notes\n2.0.0\n") = historyNotes := by
  have hchanges : Notes.heading ++ "\n\n" ++ Notes.changesIn "feat: notes\n2.0.0\n" ++ "\n\n"
      = ["## Changes", "", "* feat: notes", ""].flatMap (fun l => l.toList ++ ['\n']) := by
    decide +kernel
  unfold Notes.composed
  rw [hchanges]
  exact List.flatMap_append.symm

end Cli
end Repin
