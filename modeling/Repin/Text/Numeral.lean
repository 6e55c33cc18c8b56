/-
  Repin.Text.Numeral
  ──────────────────
  **DECIMAL NUMERALS AND NUMERALS IN OTHER BASES.**

  A natural number has one canonical decimal numeral: ASCII digits, no leading
  zero but for zero itself.  `digits` writes it, `natural?` reads exactly the
  canonical numerals back:

      natural? s = some n  ↔  s = digits n

  `valueIn base` is the value of any run of digits of a base up to sixteen, and
  `ungrouped?` takes the underscores out that group the digits of a numeral.

  Numbers are unbounded and so are their numerals: a limit that a system may set on
  how many digits it converts is left out, for reading and for writing.
-/
import Repin.Text.Basic

namespace Repin.Text

/-! ## §1. One digit. -/

/-- An ASCII decimal digit. -/
def isDigit (c : Char) : Bool := '0' ≤ c && c ≤ '9'

/-- The digit that stands for `d`, for `d` below sixteen; letters are lowercase. -/
def digitOf (d : Nat) : Char :=
  if d < 10 then Char.ofNat (48 + d) else Char.ofNat (87 + d)

/-- The value of a digit or of a letter from `a` to `f` in either case. -/
def digitValue? (c : Char) : Option Nat :=
  if '0' ≤ c ∧ c ≤ '9' then some (c.toNat - 48)
  else if 'a' ≤ c ∧ c ≤ 'f' then some (c.toNat - 87)
  else if 'A' ≤ c ∧ c ≤ 'F' then some (c.toNat - 55)
  else none

/-! ## §2. Writing. -/

/-- The canonical numeral of `n` in `base`, for a base of at least two. -/
def digitsIn (base n : Nat) : Text :=
  if _h : 2 ≤ base ∧ base ≤ n then
    digitsIn base (n / base) ++ [digitOf (n % base)]
  else [digitOf n]
termination_by n
decreasing_by exact Nat.div_lt_self (by omega) (by omega)

/-- The canonical decimal numeral of `n`. -/
def digits (n : Nat) : Text := digitsIn 10 n

/-- The decimal numeral of an integer: a minus sign stands before a negative one. -/
def integer : Int → Text
  | .ofNat n => digits n
  | .negSucc n => '-' :: digits (n + 1)

/-- The numeral of `n` in `base`, with zeros in front up to `width` digits. -/
def padded (base width n : Nat) : Text :=
  let s := digitsIn base n
  List.replicate (width - s.length) '0' ++ s

/-! ## §3. Reading. -/

/-- The value of a run of digits of `base`, most significant first, `none` if it
is empty or holds a character that is no digit of the base. -/
def valueIn? (base : Nat) (s : Text) : Option Nat :=
  if s.isEmpty then none else s.foldlM (step base) 0
where
  step (base acc : Nat) (c : Char) : Option Nat :=
    match digitValue? c with
    | some d => if d < base then some (acc * base + d) else none
    | none => none

/-- The value of a nonempty run of decimal digits, however long, leading zeros allowed. -/
def value? (s : Text) : Option Nat := valueIn? 10 s

/-- No leading zero, unless the text is just a zero. -/
def isCanonical : Text → Bool
  | '0' :: _ :: _ => false
  | _ => true

/-- The number of which `s` is the canonical decimal numeral. -/
def natural? (s : Text) : Option Nat := if isCanonical s then value? s else none

/-- Does the text begin with a minus sign?  And what follows its sign, if any. -/
def signed : Text → Bool × Text
  | '+' :: r => (false, r)
  | '-' :: r => (true, r)
  | s => (false, s)

/-- The integer that digits behind an optional sign stand for, leading zeros
allowed. -/
def integer? (s : Text) : Option Int :=
  let (negative, ds) := signed s
  (value? ds).map (fun n => if negative then -n else n)

/-! ## §4. Digits in groups. -/

/-- Does each part end in a digit and the next one begin with a digit? -/
def digitsMeet : List Text → Bool
  | p :: q :: rest => p.getLast?.any isDigit && q.head?.any isDigit && digitsMeet (q :: rest)
  | _ => true

/-- The text without its underscores, if each stands between two digits: taken apart at them,
it has a digit on both sides of each cut. -/
def ungrouped? (s : Text) : Option Text :=
  let parts := s.splitOn '_'
  if digitsMeet parts then some parts.flatten else none

example : ungrouped? "1_000.5" = some "1000.5".toList := by decide +kernel
example : ungrouped? "1__0" = none ∧ ungrouped? "1_" = none ∧ ungrouped? "_1" = none := by
  decide +kernel

end Repin.Text
