/-
  Repin.Text.Quoted
  ─────────────────
  **QUOTED LITERALS IN MESSAGES.**

  A message shows a text between single quotes, or between double quotes when
  the text holds a single quote and no double quote.  A backslash stands before
  the quote, before a backslash, and before the letter of a line feed, a carriage
  return or a tab; every other code point that is not shown as itself is written
  as a hexadecimal escape of two, four or eight digits.
-/
import Repin.Text.CodePoint
import Repin.Text.Numeral
import Repin.Text.Printable

namespace Repin.Text

/-- The quote that a literal of these code points is written with. -/
def quoteFor (s : List CodePoint) : Char :=
  if s.contains (.char '\'') && !s.contains (.char '"') then '"' else '\''

/-- One code point inside a literal that is written with `quote`. -/
def quotedPoint (quote : Char) (p : CodePoint) : Text :=
  match p with
  | .char c =>
    if c = '\\' then ['\\', '\\']
    else if c = quote then ['\\', quote]
    else if c = '\n' then ['\\', 'n']
    else if c = '\r' then ['\\', 'r']
    else if c = '\t' then ['\\', 't']
    else if isPrintable c.toNat then [c]
    else hidden c.toNat
  | .surrogate _ => hidden p.toNat
where
  /-- The hexadecimal escape of a code point. -/
  hidden (n : Nat) : Text :=
    if n < 0x100 then '\\' :: 'x' :: padded 16 2 n
    else if n < 0x10000 then '\\' :: 'u' :: padded 16 4 n
    else '\\' :: 'U' :: padded 16 8 n

/-- Code points as a quoted literal. -/
def quotedPoints (s : List CodePoint) : Text :=
  let q := quoteFor s
  q :: s.flatMap (quotedPoint q) ++ [q]

/-- A text as a quoted literal. -/
def quoted (s : Text) : Text := quotedPoints (CodePoint.ofText s)

end Repin.Text
