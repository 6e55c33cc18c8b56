/-
  Repin.Text.Class
  ────────────────
  **CLASSES OF CHARACTERS.**

  A class of characters beyond ASCII is a list of closed ranges of code points,
  ascending and apart.  `within` looks a code point up, `ascending` checks the
  list, `total` counts the code points of the class.

  The decimal digits are those of the general category "decimal number", which come
  in runs of ten per script, in the edition of the standard with 660 of them.  The
  ASCII digits are the first run.  Two classes of blanks differ in the four
  information separators U+001C to U+001F: the output of a command is trimmed of
  them as well, a number that is given as text is not.
-/
import Repin.Text.Basic

namespace Repin.Text

/-! ## §1. Ranges. -/

/-- Does one of the closed ranges hold the code point? -/
def within (ranges : List (Nat × Nat)) (n : Nat) : Bool :=
  ranges.any (fun r => r.1 ≤ n && n ≤ r.2)

/-- Each range is not empty and ends before the next one begins. -/
def ascending : List (Nat × Nat) → Bool
  | [] => true
  | [r] => r.1 ≤ r.2
  | r :: s :: rest => r.1 ≤ r.2 && r.2 < s.1 && ascending (s :: rest)

/-- How many code points the ranges hold together. -/
def total : List (Nat × Nat) → Nat
  | [] => 0
  | r :: rest => (r.2 + 1 - r.1) + total rest

/-! ## §2. Decimal digits of every script. -/

/-- The runs of decimal digits, by code point. -/
def decimalRanges : List (Nat × Nat) :=
  [(0x30, 0x39), (0x660, 0x669), (0x6F0, 0x6F9), (0x7C0, 0x7C9), (0x966, 0x96F),
   (0x9E6, 0x9EF), (0xA66, 0xA6F), (0xAE6, 0xAEF), (0xB66, 0xB6F), (0xBE6, 0xBEF),
   (0xC66, 0xC6F), (0xCE6, 0xCEF), (0xD66, 0xD6F), (0xDE6, 0xDEF), (0xE50, 0xE59),
   (0xED0, 0xED9), (0xF20, 0xF29), (0x1040, 0x1049), (0x1090, 0x1099), (0x17E0, 0x17E9),
   (0x1810, 0x1819), (0x1946, 0x194F), (0x19D0, 0x19D9), (0x1A80, 0x1A89), (0x1A90, 0x1A99),
   (0x1B50, 0x1B59), (0x1BB0, 0x1BB9), (0x1C40, 0x1C49), (0x1C50, 0x1C59), (0xA620, 0xA629),
   (0xA8D0, 0xA8D9), (0xA900, 0xA909), (0xA9D0, 0xA9D9), (0xA9F0, 0xA9F9), (0xAA50, 0xAA59),
   (0xABF0, 0xABF9), (0xFF10, 0xFF19), (0x104A0, 0x104A9), (0x10D30, 0x10D39),
   (0x11066, 0x1106F), (0x110F0, 0x110F9), (0x11136, 0x1113F), (0x111D0, 0x111D9),
   (0x112F0, 0x112F9), (0x11450, 0x11459), (0x114D0, 0x114D9), (0x11650, 0x11659),
   (0x116C0, 0x116C9), (0x11730, 0x11739), (0x118E0, 0x118E9), (0x11950, 0x11959),
   (0x11C50, 0x11C59), (0x11D50, 0x11D59), (0x11DA0, 0x11DA9), (0x16A60, 0x16A69),
   (0x16AC0, 0x16AC9), (0x16B50, 0x16B59), (0x1D7CE, 0x1D7FF), (0x1E140, 0x1E149),
   (0x1E2F0, 0x1E2F9), (0x1E950, 0x1E959), (0x1FBF0, 0x1FBF9)]

/-- A decimal digit of any script. -/
def isDecimal (c : Char) : Bool :=
  if c.toNat < 128 then '0' ≤ c && c ≤ '9' else within decimalRanges c.toNat

/-- The value of a decimal digit of any script: its place in its run of ten. -/
def decimalValue? (c : Char) : Option Nat :=
  (decimalRanges.find? (fun r => r.1 ≤ c.toNat && c.toNat ≤ r.2)).map
    (fun r => (c.toNat - r.1) % 10)

example : ascending decimalRanges = true := by decide
example : total decimalRanges = 660 := by decide
example : isDecimal '٥' = true ∧ isDecimal '²' = false := by decide

/-! ## §3. White space. -/

/-- The characters with the white space property. -/
def spaceRanges : List (Nat × Nat) :=
  [(0x9, 0xD), (0x20, 0x20), (0x85, 0x85), (0xA0, 0xA0), (0x1680, 0x1680), (0x2000, 0x200A),
   (0x2028, 0x2029), (0x202F, 0x202F), (0x205F, 0x205F), (0x3000, 0x3000)]

/-- A character with the white space property. -/
def isSpace (c : Char) : Bool := within spaceRanges c.toNat

/-- White space or an information separator. -/
def isBlank (c : Char) : Bool := isSpace c || (0x1C ≤ c.toNat && c.toNat ≤ 0x1F)

/-- The text without the characters of a class at its beginning and at its end. -/
def trimmedOf (drop : Char → Bool) (s : Text) : Text :=
  ((s.dropWhile drop).reverse.dropWhile drop).reverse

/-- The text without blanks at its ends. -/
def trimmed (s : Text) : Text := trimmedOf isBlank s

example : ascending spaceRanges = true := by decide
example : total spaceRanges = 25 := by decide
example : isBlank '\x1c' = true ∧ isSpace '\x1c' = false ∧ isBlank '\u200b' = false := by decide

end Repin.Text
