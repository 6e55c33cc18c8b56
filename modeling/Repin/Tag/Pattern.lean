/-
  Repin.Tag.Pattern
  ─────────────────
  **WHICH TAG NAMES LOOK LIKE RELEASES.**

  A tag pattern accepts the prefix, taken literally, followed by three numerals
  with dots between them and, if suffixes are allowed, a pre-release and a build
  part.  One line feed may stand at the very end.

  The pattern looks at shapes only and is more generous than the reader of
  versions: behind its first digit a numeral may hold decimal digits of any
  script, and a numeric pre-release identifier may have leading zeros.

  `source` is the regular expression that says the same, as messages show it.
-/
import Repin.Tag.Basic
import Repin.Text.Class

namespace Repin

/-- The shape that release tags of one dependency have. -/
structure TagPattern where
  /-- What stands before the version, literally. -/
  start : Text
  /-- Are pre-release and build parts allowed? -/
  suffixed : Bool
  deriving DecidableEq, Repr

namespace TagPattern

/-! ## §1. Shapes.  Each function gives what is left behind the shape. -/

/-- Behind a zero, or behind an ASCII digit from one to nine and all decimal
digits that follow it. -/
def numeral? : Text → Option Text
  | '0' :: r => some r
  | c :: r => if '1' ≤ c ∧ c ≤ '9' then some (r.dropWhile Text.isDecimal) else none
  | [] => none

/-- Behind three numerals with dots between them. -/
def numerals? (s : Text) : Option Text := do
  let s ← numeral? s
  let s ← Text.behind? ['.'] s
  let s ← numeral? s
  let s ← Text.behind? ['.'] s
  numeral? s

/-- Behind the longest run of identifier characters and of dots that stand
directly before one. -/
def dottedRest : Text → Text
  | '.' :: d :: r => if Identifier.isChar d then dottedRest r else '.' :: d :: r
  | c :: r => if Identifier.isChar c then dottedRest r else c :: r
  | [] => []

/-- Behind an optional part: the sign and at least one identifier. -/
def part (sign : Char) : Text → Text
  | c :: d :: r => if c = sign ∧ Identifier.isChar d then dottedRest r else c :: d :: r
  | s => s

/-- The end of the text, or a line feed before it. -/
def atEnd : Text → Bool
  | [] => true
  | ['\n'] => true
  | _ => false

/-! ## §2. The pattern. -/

/-- Does the name have the shape of a release tag? -/
def accepts (p : TagPattern) (name : Text) : Bool :=
  match (Text.behind? p.start name).bind numerals? with
  | none => false
  | some r => atEnd (if p.suffixed then part '+' (part '-' r) else r)

/-- The characters that have a meaning of their own in a regular expression. -/
def special : Text := "()[]{}?*+-|^$\\.&~# \t\n\r\x0b\x0c"

/-- A text as a regular expression that matches it literally. -/
def escaped (s : Text) : Text :=
  s.flatMap (fun c => if special.contains c then ['\\', c] else [c])

/-- The regular expression of a numeral. -/
def numeralSource : Text := "(0|[1-9]\\d*)"

/-- The regular expression of an optional part behind `sign`. -/
def partSource (sign : Text) : Text :=
  "(?:" ++ sign ++ "[0-9A-Za-z-]+(?:\\.[0-9A-Za-z-]+)*)?"

/-- The pattern as a regular expression. -/
def source (p : TagPattern) : Text :=
  '^' :: escaped p.start ++ numeralSource ++ "\\." ++ numeralSource ++ "\\." ++ numeralSource
    ++ (if p.suffixed then partSource "-" ++ partSource "\\+" else []) ++ ['$']

end TagPattern
end Repin
