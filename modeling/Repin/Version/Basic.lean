/-
  Repin.Version.Basic
  ───────────────────
  **SEMANTIC VERSIONS AND HOW THEY ARE WRITTEN.**

  A version is three unbounded numbers, a list of pre-release identifiers and a
  list of build identifiers; an empty list means that the part is absent.  A
  pre-release identifier is a number or a word, because the two are ordered
  differently.

      text v  =  major.minor.patch [-pre.pre…] [+build.build…]

  `WellFormed` is the condition under which `text v` can be read back: a word
  holds a letter or a hyphen, and no identifier is empty.
-/
import Repin.Text.Numeral

namespace Repin

/-- One pre-release identifier. -/
inductive Identifier where
  /-- A number, written without leading zeros. -/
  | number (n : Nat)
  /-- A word of letters, digits and hyphens that is not all digits. -/
  | word (text : Text)
  deriving DecidableEq, Repr

/-- A semantic version. -/
structure Version where
  major : Nat
  minor : Nat
  patch : Nat
  /-- The pre-release identifiers; none for a release. -/
  pre : List Identifier := []
  /-- The build identifiers. -/
  build : List Text := []
  deriving DecidableEq, Repr

namespace Identifier

/-- The characters of identifiers: ASCII letters, ASCII digits and the hyphen. -/
def isChar (c : Char) : Bool :=
  ('0' ≤ c && c ≤ '9') || ('A' ≤ c && c ≤ 'Z') || ('a' ≤ c && c ≤ 'z') || c = '-'

/-- The identifier as it is written. -/
def text : Identifier → Text
  | .number n => Text.digits n
  | .word t => t

/-- The identifier is what its text says: a word is no number. -/
def WellFormed : Identifier → Prop
  | .number _ => True
  | .word t => (∀ c ∈ t, isChar c = true) ∧ ∃ c ∈ t, Text.isDigit c = false

end Identifier

namespace Version

/-- The three numbers, with dots between them. -/
def core (v : Version) : Text :=
  Text.digits v.major ++ '.' :: (Text.digits v.minor ++ '.' :: Text.digits v.patch)

/-- The pre-release part without its hyphen, if there is one. -/
def preText? (v : Version) : Option Text :=
  if v.pre.isEmpty then none else some (['.'].intercalate (v.pre.map Identifier.text))

/-- The build part without its plus sign, if there is one. -/
def buildText? (v : Version) : Option Text :=
  if v.build.isEmpty then none else some (['.'].intercalate v.build)

/-- A part with the sign before it, or nothing. -/
def suffix (sign : Char) : Option Text → Text
  | none => []
  | some t => sign :: t

/-- The version as it is written. -/
def text (v : Version) : Text :=
  v.core ++ suffix '-' v.preText? ++ suffix '+' v.buildText?

/-- Every identifier of the version can be read back from its text. -/
def WellFormed (v : Version) : Prop :=
  (∀ i ∈ v.pre, i.WellFormed) ∧ ∀ b ∈ v.build, b ≠ [] ∧ ∀ c ∈ b, Identifier.isChar c = true

end Version
end Repin
