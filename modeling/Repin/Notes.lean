/-
  Repin.Notes
  ───────────
  **RELEASE NOTES.**

  Release notes are a heading, a changelog and a fixed text on how to install the
  plugin.  The changelog has a line for each commit since the previous version
  tag, but for the commits that a release itself made.
-/
import Repin.Site
import Repin.Text.Class

namespace Repin
namespace Notes

/-! ## §1. Releases in the history. -/

/-- Behind a longest nonempty run of decimal digits. -/
def number? (s : Text) : Option Text :=
  if s.head?.any Text.isDecimal then some (s.dropWhile Text.isDecimal) else none

/-- Is the text a version of three numbers, with or without a `v` before it?  One
line feed may stand at the very end. -/
def isRelease (s : Text) : Bool :=
  let numbers := (Text.behind? ['v'] s).getD s
  let rest? := do
    let r ← Text.behind? ['.'] (← number? numbers)
    let r ← Text.behind? ['.'] (← number? r)
    number? r
  rest? = some [] || rest? = some ['\n']

/-- The first tag that names a release other than the given version. -/
def previousOf (version : Text) (tags : List Text) : Option Text :=
  tags.find? (fun t => t ≠ version && isRelease t)

/-- The commits since a tag; all of them without one. -/
def range : Option Text → Text
  | some (c :: tag) => c :: tag ++ "..HEAD"
  | _ => "HEAD"

/-! ## §2. The changelog. -/

/-- The version tag before the given version. -/
def previousTag (root : Path) (version : Text) : Job (Option Text) := do
  let tags ← Job.git ["tag", "--list", "--sort=-v:refname"] (some root) true
  return previousOf version (Text.lines tags)

/-- The subjects of the commits since a tag. -/
def subjects (root : Path) (since : Option Text) : Job (List Text) := do
  let log ← Job.git ["log", range since, "--pretty=format:%s"] (some root) true
  return (Text.lines log).filter (fun s => !(Text.trimmed s).isEmpty)

/-- The lines of a changelog. -/
def bullets (subjects : List Text) : List Text :=
  (subjects.filter (fun s => !isRelease s)).map (fun s => "* " ++ s)

/-- What is reported when the history cannot be read; other faults are passed on. -/
def unreadable (root : Path) : Fault → Fault
  | .commandFailed c status => .historyUnreadable root (c.failureMessage status)
  | .system e => .historyUnreadable root e.message
  | f => f

/-- The changelog of a version, from the history of the repository. -/
def changelog (root : Path) (version : Text) : Job Text :=
  tryCatch
    (do
      let since ← previousTag root version
      return ['\n'].intercalate (bullets (← subjects root since)))
    (fun f => throw (unreadable root f))

/-! ## §3. The notes. -/

/-- The heading. -/
def heading : Text := "## Changes"

/-- How to install the plugin, line by line. -/
def installationLines : List String :=
  ["## Install",
   "",
   "[Install](https://dprint.dev/install/) and [setup](https://dprint.dev/setup/) dprint.",
   "",
   "Then in your project's directory with a dprint.json file, run:",
   "",
   "\x60\x60\x60shellsession",
   "dprint config add biome",
   "\x60\x60\x60",
   "",
   "## JS Formatting API",
   "",
   "  * [JS Formatter](https://github.com/dprint/js-formatter) - Browser/Deno and Node",
   "  * [npm package](https://www.npmjs.com/package/@dprint/biome)"]

/-- How to install the plugin. -/
def installation : Text := installationLines.flatMap (fun l => l.toList ++ ['\n'])

/-- The notes around a changelog. -/
def composed (changes : Text) : Text := heading ++ "\n\n" ++ changes ++ "\n\n" ++ installation

/-- The release notes of a version. -/
def compose (root : Path) (version : Text) : Job Text := do
  return composed (← changelog root version)

end Notes
end Repin
