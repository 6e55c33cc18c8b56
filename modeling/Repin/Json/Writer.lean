/-
  Repin.Json.Writer
  ─────────────────
  **WRITING JSON DOCUMENTS.**

  A document is written in ASCII: every other code point is an escape of a
  UTF-16 unit in lowercase hexadecimal.  Elements and members stand on lines of
  their own, two blanks further in than what they belong to; an empty array or
  object is just its brackets.
-/
import Repin.Decimal.Notation
import Repin.Json.Basic

namespace Repin
namespace Json

/-! ## §1. Strings. -/

/-- The escape of one UTF-16 unit. -/
def unitEscape (n : Nat) : Text := '\\' :: 'u' :: Text.padded 16 4 n

/-- One code point inside a string. -/
def escape (p : CodePoint) : Text :=
  let n := p.toNat
  if n = 0x22 then ['\\', '"']
  else if n = 0x5C then ['\\', '\\']
  else if n = 0xA then ['\\', 'n']
  else if n = 0xD then ['\\', 'r']
  else if n = 0x9 then ['\\', 't']
  else if n = 0xC then ['\\', 'f']
  else if n = 0x8 then ['\\', 'b']
  else if 0x20 ≤ n ∧ n < 0x7F then [Char.ofNat n]
  else if n < 0x10000 then unitEscape n
  else unitEscape (0xD800 + (n - 0x10000) / 0x400) ++ unitEscape (0xDC00 + (n - 0x10000) % 0x400)

/-- A string with its quotes. -/
def quoted (s : List CodePoint) : Text := '"' :: s.flatMap escape ++ ['"']

/-! ## §2. Values. -/

/-- A number that is not written as an integer. -/
def floatText : Double → Text
  | .nan => "NaN"
  | .infinite negative => if negative then "-Infinity" else "Infinity"
  | x => x.text

/-- A line feed and the blanks of a line at the given depth. -/
def newLine (depth : Nat) : Text := '\n' :: List.replicate (2 * depth) ' '

mutual

/-- A value whose first line stands at the given depth. -/
def textAt (depth : Nat) : Json → Text
  | .null => "null"
  | .bool b => if b then "true" else "false"
  | .int n => Text.integer n
  | .float x => floatText x
  | .string s => quoted s
  | .array [] => "[]"
  | .array (v :: vs) =>
    '[' :: newLine (depth + 1) ++ textAt (depth + 1) v ++ elementsAt (depth + 1) vs
      ++ newLine depth ++ [']']
  | .object [] => "\x7b\x7d"
  | .object ((k, v) :: ms) =>
    '\x7b' :: newLine (depth + 1) ++ quoted k ++ ": " ++ textAt (depth + 1) v
      ++ membersAt (depth + 1) ms ++ newLine depth ++ ['\x7d']

/-- Elements behind the first one. -/
def elementsAt (depth : Nat) : List Json → Text
  | [] => []
  | v :: vs => ',' :: newLine depth ++ textAt depth v ++ elementsAt depth vs

/-- Members behind the first one. -/
def membersAt (depth : Nat) : List (List CodePoint × Json) → Text
  | [] => []
  | (k, v) :: ms =>
    ',' :: newLine depth ++ quoted k ++ ": " ++ textAt depth v ++ membersAt depth ms

end

/-- A value as a document. -/
def text (v : Json) : Text := textAt 0 v ++ ['\n']

end Json
end Repin
