/-
  Repin.Version.Parser
  ────────────────────
  **READING VERSIONS, STRICTLY AND LENIENTLY.**

  `Version.read?` reads exactly the written forms of well-formed versions.  The
  build part begins at the first plus sign, the pre-release part at the first
  hyphen before it, and what is left must be three canonical numerals.

  `Version.parse` is the strict reader with its refusal.  `Version.lenient` also
  takes a text of one or two fields, and the first three fields of a longer one:
  a text that is no version is split at its dots, filled up with zeros to three
  fields, cut after the third and then read strictly.
-/
import Repin.Refusal
import Repin.Version.Basic

namespace Repin

/-- Reads a pre-release identifier: a canonical numeral, or a word. -/
def Identifier.read? (t : Text) : Option Identifier :=
  if t.all Text.isDigit then (Text.natural? t).map .number
  else if t.all isChar then some (.word t)
  else none

namespace Version

/-- Reads a build identifier: any nonempty text of identifier characters. -/
def buildField? (t : Text) : Option Text :=
  if !t.isEmpty && t.all Identifier.isChar then some t else none

/-- Reads the fields of an optional dotted part. -/
def fields? {α : Type} (field? : Text → Option α) : Option Text → Option (List α)
  | none => some []
  | some t => (t.splitOn '.').mapM field?

/-- Reads three canonical numerals with dots between them. -/
def core? (t : Text) : Option (Nat × Nat × Nat) :=
  match t.splitOn '.' with
  | [a, b, c] => do
    let major ← Text.natural? a
    let minor ← Text.natural? b
    let patch ← Text.natural? c
    pure (major, minor, patch)
  | _ => none

/-- The version whose written form is `s`, if there is one. -/
def read? (s : Text) : Option Version := do
  let (front, buildPart) := Text.cut '+' s
  let (numbers, prePart) := Text.cut '-' front
  let (major, minor, patch) ← core? numbers
  let pre ← fields? Identifier.read? prePart
  let build ← fields? buildField? buildPart
  pure { major, minor, patch, pre, build }

/-- Reads a version strictly. -/
def parse (s : Text) : Except Refusal Version :=
  match read? s with
  | some v => .ok v
  | none => .error (.notVersion s)

/-- The first three dotted fields of a text, filled up with zeros. -/
def threeFields (s : Text) : Text :=
  ['.'].intercalate ((s.splitOn '.' ++ [['0'], ['0']]).take 3)

/-- Reads a version, or else its first three fields. -/
def lenient (s : Text) : Except Refusal Version :=
  match read? s with
  | some v => .ok v
  | none => parse (threeFields s)

end Version
end Repin
