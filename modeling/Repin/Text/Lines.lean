/-
  Repin.Text.Lines
  ────────────────
  **LINES OF A TEXT.**

  A line ends at a line feed, at a carriage return, at both together, or at one
  of the other line boundaries.  A boundary at the very end begins no further
  line.  `unified` turns the three common line ends into line feeds, which is the
  form in which a file is read.
-/
import Repin.Text.Basic

namespace Repin.Text

/-- A character at which a line ends. -/
def endsLine (c : Char) : Bool :=
  (0xA ≤ c.toNat && c.toNat ≤ 0xD) || (0x1C ≤ c.toNat && c.toNat ≤ 0x1E)
    || c.toNat = 0x85 || c.toNat = 0x2028 || c.toNat = 0x2029

/-- The lines of a text, without what ends them. -/
def lines : Text → List Text
  | [] => []
  | '\r' :: '\n' :: r => [] :: lines r
  | c :: r =>
    if endsLine c then [] :: lines r
    else match lines r with
      | [] => [[c]]
      | l :: ls => (c :: l) :: ls

/-- The text with a line feed for each carriage return, and for each carriage
return with its line feed. -/
def unified : Text → Text
  | [] => []
  | '\r' :: '\n' :: r => '\n' :: unified r
  | c :: r => (if c = '\r' then '\n' else c) :: unified r

example : lines "a\r\nb\rc\n" = ["a".toList, "b".toList, "c".toList] := by decide
example : unified "a\r\n\rb" = "a\n\nb".toList := by decide

end Repin.Text
