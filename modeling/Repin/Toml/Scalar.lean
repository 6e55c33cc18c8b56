/-
  Repin.Toml.Scalar
  ─────────────────
  **WHAT WORDS AND QUOTED STRINGS MEAN.**

  A word means a truth value, a moment or a number.  An integer is decimal
  without a leading zero and with or without a sign, or binary, octal or
  hexadecimal behind `0b`, `0o` or `0x`.  Underscores may stand between digits.
-/
import Repin.Decimal.Notation
import Repin.Decimal.Reader
import Repin.Text.CodePoint
import Repin.Text.Numeral
import Repin.Toml.Moment
import Repin.Toml.Token

namespace Repin.Toml

/-- A value that has no parts. -/
inductive Scalar where
  | string (s : Text)
  | int (n : Int)
  | float (x : Double)
  | bool (b : Bool)
  | moment (m : Moment)
  deriving DecidableEq, Repr

/-! ## §1. Strings. -/

/-- What an escaped letter stands for. -/
def escaped? : Char → Option Char
  | 'b' => some '\x08'
  | 't' => some '\t'
  | 'n' => some '\n'
  | 'f' => some '\x0c'
  | 'r' => some '\r'
  | 'e' => some '\x1b'
  | '"' => some '"'
  | '\\' => some '\\'
  | _ => none

/-- How many hexadecimal digits follow the letter of a numeric escape. -/
def escapeWidth? : Char → Option Nat
  | 'x' => some 2
  | 'u' => some 4
  | 'U' => some 8
  | _ => none

/-- The character with a hexadecimal number of the given width. -/
def numbered? (width : Nat) (s : Text) : Option Char :=
  if s.length = width then
    (Text.valueIn? 16 s).bind (fun n => if n.isValidChar then some (Char.ofNat n) else none)
  else none

/-- A blank or a part of a line end. -/
def isSpacing (c : Char) : Bool := isBlank c || c = '\n' || c = '\r'

/-- The text that the body of a basic string stands for.  In a block, a backslash
at the end of a line takes with it all white space up to the next character.
`skip` says how many characters still belong to an escape. -/
def unescaped? (block : Bool) : Nat → Text → Option Text
  | _, [] => some []
  | skip + 1, _ :: r => unescaped? block skip r
  | 0, '\\' :: r =>
    match r with
    | [] => none
    | c :: r' =>
      match escapeWidth? c with
      | some width => do
        let x ← numbered? width (r'.take width)
        return x :: (← unescaped? block (width + 1) r)
      | none =>
        match escaped? c with
        | some x => (unescaped? block 1 r).map (x :: ·)
        | none =>
          let gap := r.takeWhile isSpacing
          if block && gap.contains '\n' then unescaped? block gap.length r else none
  | 0, c :: r => (unescaped? block 0 r).map (c :: ·)

/-- A block string without the line end right behind its opening quotes. -/
def withoutFirstLineEnd : Text → Text
  | '\n' :: r => r
  | '\r' :: '\n' :: r => r
  | s => s

/-- The text that a quoted string stands for. -/
def stringValue? (quote : Quote) (body : Text) : Option Text :=
  match quote with
  | .basic => unescaped? false 0 body
  | .literal => some body
  | .basicBlock => unescaped? true 0 (withoutFirstLineEnd body)
  | .literalBlock => some (withoutFirstLineEnd body)

/-! ## §2. Numbers. -/

/-- The base that two characters announce. -/
def base? : Text → Option Nat
  | '0' :: 'b' :: _ => some 2
  | '0' :: 'o' :: _ => some 8
  | '0' :: 'x' :: _ => some 16
  | _ => none

/-- A number in a base, in groups of at least one digit. -/
def based? (base : Nat) (s : Text) : Option Nat :=
  let parts := s.splitOn '_'
  if parts.any List.isEmpty then none else Text.valueIn? base parts.flatten

/-- May a decimal number begin so?  A zero is followed by a point, by the small
letter of an exponent or by nothing. -/
def startsWell : Text → Bool
  | '0' :: c :: _ => c = '.' || c = 'e'
  | _ => true

/-- Is there a digit behind the point? -/
def pointIsInside (s : Text) : Bool :=
  match (s.takeWhile (fun c => c ≠ 'e')).getLast? with
  | some c => c ≠ '.'
  | none => true

/-- A decimal number behind its sign. -/
def decimal? (negative : Bool) (s : Text) : Option Scalar := do
  let plain ← Text.ungrouped? s
  let plain := Text.lowered plain
  if startsWell s && pointIsInside plain then
    match Text.value? plain with
    | some n => return .int (if negative then -n else n)
    | none => return .float (← (Double.digits? negative plain))
  else none

/-- The number that a word stands for.  `inf` and `nan` without a sign are small. -/
def number? (s : Text) : Option Scalar :=
  match s with
  | '+' :: r => signed? false r
  | '-' :: r => signed? true r
  | _ =>
    if s = "inf" then some (.float (.infinite false))
    else if s = "nan" then some (.float .nan)
    else match base? s with
      | some base => (based? base (s.drop 2)).map (fun n => .int n)
      | none => if s.head?.any Text.isDigit then decimal? false s else none
where
  /-- A number behind a sign. -/
  signed? (negative : Bool) (r : Text) : Option Scalar :=
    match Double.word? negative r with
    | some x => some (.float x)
    | none => if r.head?.any Text.isDigit then decimal? negative r else none

/-! ## §3. Words. -/

/-- What a word stands for. -/
def wordValue? (s : Text) : Option Scalar :=
  if s = "true" then some (.bool true)
  else if s = "false" then some (.bool false)
  else ((moment? s).map .moment).or (number? s)

/-! ## §4. Text. -/

/-- A value as text: a string as it is. -/
def Scalar.text : Scalar → Text
  | .string s => s
  | .int n => Text.integer n
  | .float x => x.text
  | .bool b => if b then "True" else "False"
  | .moment m => m.text

end Repin.Toml
