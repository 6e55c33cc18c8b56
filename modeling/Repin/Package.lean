/-
  Repin.Package
  ─────────────
  **THE PACKAGE OF THE PLUGIN.**

  Packaging copies the build output into the directory of the package, beside
  the package descriptor, and stamps a version into the descriptor if one is
  given.
-/
import Repin.Json.Writer
import Repin.Site

namespace Repin
namespace Package

/-- The name that the plugin has in the package. -/
def pluginFile : Text := "plugin.wasm"

/-- The name of the package descriptor. -/
def descriptorFile : Text := "package.json"

/-- The text of a descriptor with a version stamped into it. -/
def stamped (v version : Json) : Except Fault Text :=
  match v with
  | .object ms => .ok (Json.object (Json.Members.set (CodePoint.ofText "version") version ms)).text
  | _ => .error .notObject

/-- Reads a descriptor. -/
def readDescriptor (p : Path) : Job Json := do
  let content ← tryCatch (Job.readText p) (fun
    | .system e => throw (.descriptorUnreadable p (.system e))
    | f => throw f)
  Job.ofExcept (fun f => .descriptorUnreadable p (.json content f)) (Json.ofDocument content)

/-- Stamps a version into a descriptor. -/
def setVersion (p : Path) (version : Text) : Job Unit := do
  let v ← readDescriptor p
  let text ← Job.ofExcept id (stamped v (Json.ofText version))
  Job.writeText p text

/-- Copies the build output into the directory of the package, stamps the version
if there is one, and gives the path of the copy. -/
def make (buildOutput distDir : Path) (version : Option Text) : Job Path := do
  Job.announce "Packaging plugin"
  let s ← get
  if !s.tree.isFile s.here buildOutput then throw (.buildMissing buildOutput)
  Job.ensureDirectory distDir
  let target := distDir.sub pluginFile
  Job.copyFile buildOutput target
  Job.say ("  " ++ buildOutput.name ++ " → " ++ target.text)
  match version with
  | none => return target
  | some version =>
    setVersion (distDir.sub descriptorFile) version
    Job.say ("  package.json version: " ++ version)
    return target

end Package
end Repin
