/-
  Repin.Version.Bump
  ──────────────────
  **RAISING A VERSION.**

  A bump raises the patch number, or raises the minor number and clears the
  patch number.  Either way the result is a release: no pre-release part and no
  build part.  There is no bump of the major number.
-/
import Repin.Version.Parser

namespace Repin

/-- Which number of a version is raised. -/
inductive Bump where
  /-- The patch number. -/
  | patch
  /-- The minor number; the patch number becomes zero. -/
  | minor
  deriving DecidableEq, Repr

namespace Bump

/-- The name of a bump. -/
def name : Bump → Text
  | .patch => "patch"
  | .minor => "minor"

/-- The bump of the given name. -/
def named (t : Text) : Except Refusal Bump :=
  if t = Bump.patch.name then .ok .patch
  else if t = Bump.minor.name then .ok .minor
  else .error (.notBump t)

/-- The version that follows `v`. -/
def next (b : Bump) (v : Version) : Version :=
  match b with
  | .patch => { major := v.major, minor := v.minor, patch := v.patch + 1 }
  | .minor => { major := v.major, minor := v.minor + 1, patch := 0 }

/-- The text of the version that follows the one written, leniently read. -/
def nextText (b : Bump) (s : Text) : Except Refusal Text :=
  (Version.lenient s).map (fun v => (b.next v).text)

end Bump
end Repin
