/-
  Repin.Manifest
  ──────────────
  **THE MANIFEST OF THE REPOSITORY.**

  A manifest pins a tag of the dependency and declares the version of the
  repository itself.  The pin is found in its text, as a plain sequence of
  characters; the version is found in its meaning as a TOML document, under
  `package` or else under `project`, and is changed without touching any other
  text.  Every change is written at once.
-/
import Repin.Config.Basic
import Repin.Site
import Repin.Tag.Entry
import Repin.Text.Replace
import Repin.Toml.Document
import Repin.Toml.Literal

namespace Repin

/-- The change of a version. -/
structure VersionChange where
  old : Text
  new : Text
  deriving DecidableEq, Repr

namespace Manifest

/-! ## §1. The declared version. -/

/-- The tables that may declare a version, the first one first. -/
def versionTables : List Text := ["package", "project"]

/-- The version in a table: `none` for a value that is no table, and for a table
without a version. -/
def versionIn? : Toml → Option Toml
  | .table _ t => Toml.Table.get? "version" t
  | _ => none

/-- The value that a manifest declares as its version. -/
def declared? (root : Toml.Table) : Option Toml :=
  versionTables.findSome? (fun name => (Toml.Table.get? name root).bind versionIn?)

/-- The version that the text of a manifest declares. -/
def declaredVersion (s : Text) : Except Fault Text :=
  match Toml.Document.read? s with
  | none => .error .notToml
  | some d =>
    match declared? d.root with
    | none => .error .versionMissing
    | some v => .ok v.text

/-- The document with its declared version set to `new`; a declared value that is
spelled by more than one token is left as it is. -/
def withVersion (d : Toml.Document) (v : Toml) (new : Text) : Text :=
  match v with
  | .scalar place _ => d.textWith place new
  | _ => d.text

/-- The change that a bump makes, and the text of the manifest after it. -/
def bumped (bump : Bump) (s : Text) : Except Fault (VersionChange × Text) :=
  match Toml.Document.read? s with
  | none => .error .notToml
  | some d =>
    match declared? d.root with
    | none => .error .versionMissing
    | some v =>
      -- Whatever kind of value it is, its text is what is bumped.
      match bump.nextText v.text with
      | .error r => .error (.refused r)
      | .ok new => .ok ({ old := v.text, new }, withVersion d v new)

/-! ## §2. The pin. -/

/-- The tag that the text of a manifest pins, with its version. -/
def pinned (c : Config) (s : Text) : Except Fault Pin :=
  match Entry.first? c.dependencyUrl s with
  | none => .error (.pinMissing c.dependencyUrl c.manifestPath.name)
  | some e =>
    match Version.ofTag c.tagPrefix e.tag with
    | .ok version => .ok { tag := e.tag, version }
    | .error _ => .error (.pinNotRelease e.tag c.manifestPath.name)

/-! ## §3. Reading and changing the file. -/

/-- The text of the manifest. -/
def read (c : Config) : Job Text := Job.readText c.manifestPath

/-- The tag that the manifest pins. -/
def readPin (c : Config) : Job Pin := do Job.ofExcept id (pinned c (← read c))

/-- The version that the manifest declares. -/
def readVersion (c : Config) : Job Text := do Job.ofExcept id (declaredVersion (← read c))

/-- Bumps the version that the manifest declares. -/
def bumpVersion (c : Config) (bump : Bump) : Job VersionChange := do
  let (change, text) ← Job.ofExcept id (bumped bump (← read c))
  Job.writeText c.manifestPath text
  return change

/-- Replaces every occurrence of a text in the manifest, and says how many. -/
def replaceAll (c : Config) (old new : Text) : Job Nat := do
  let s ← read c
  Job.writeText c.manifestPath (Text.replaced old new s)
  return Text.occurrences old s

end Manifest
end Repin
