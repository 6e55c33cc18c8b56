/-
  Repin.Tag.Basic
  ───────────────
  **TAGS THAT NAME VERSIONS.**

  A release tag is a fixed prefix followed by a version.  A `Pin` is the tag
  that a manifest records, a `Release` a tag that the host lists; both carry the
  version that their tag names.

  Which bump a newer tag calls for is decided by tag identity first: the same
  tag calls for none, any other tag for a patch bump when major and minor agree,
  else for a minor bump.  Precedence plays no part in it.
-/
import Repin.Version.Bump

namespace Repin

/-- The tag that a manifest records for its dependency. -/
structure Pin where
  tag : Text
  version : Version
  deriving DecidableEq, Repr

/-- A release tag that the host lists. -/
structure Release where
  name : Text
  version : Version
  deriving DecidableEq, Repr

/-- The version that a tag names behind its prefix. -/
def Version.ofTag (start tag : Text) : Except Refusal Version :=
  match Text.behind? start tag with
  | none => .error (.otherPrefix tag start)
  | some rest => Version.parse rest

/-- The bump that moving from `pin` to `latest` calls for, if it is a move. -/
def Bump.between (pin : Pin) (latest : Release) : Option Bump :=
  if pin.tag = latest.name then none
  else if pin.version.major = latest.version.major ∧ pin.version.minor = latest.version.minor then
    some .patch
  else some .minor

end Repin
