/-
  Repin.Decimal.Reader
  ────────────────────
  **READING NUMBERS.**

  A number is digits with or without a point, at least one digit on one side of
  it, and with or without an exponent; or it is `inf`, `infinity` or `nan` in any
  case.  A sign may stand in front.

      2   -.5   1.   1e3   +Infinity
-/
import Repin.Decimal.Double
import Repin.Text.Numeral

namespace Repin

namespace Double

/-- The number with the given digits before and behind the point and the given
power of ten. -/
def ofParts (negative : Bool) (whole fraction : Text) (exponent : Int) : Double :=
  ofDecimal negative ((Text.value? (whole ++ fraction)).getD 0) (exponent - fraction.length)

/-- The power of ten behind the digits, if what stands there is one or nothing. -/
def exponent? : Text → Option Int
  | [] => some 0
  | c :: r => if c = 'e' ∨ c = 'E' then Text.integer? r else none

/-- A number without a sign that is written with digits. -/
def digits? (negative : Bool) (s : Text) : Option Double := do
  let (whole, r) := s.span Text.isDigit
  let (fraction, r) := match r with
    | '.' :: r => r.span Text.isDigit
    | r => ([], r)
  if whole.isEmpty && fraction.isEmpty then none
  else return ofParts negative whole fraction (← exponent? r)

/-- A number without a sign that is written as a word. -/
def word? (negative : Bool) (s : Text) : Option Double :=
  if [("inf" : Text), "infinity"].contains (Text.lowered s) then some (.infinite negative)
  else if Text.lowered s = "nan" then some .nan
  else none

/-- The number that a text stands for. -/
def read? (s : Text) : Option Double :=
  let (negative, r) := Text.signed s
  (digits? negative r).or (word? negative r)

example : read? "2.5" = some (ofDecimal false 25 (-1)) := by decide +kernel
example : read? "-.5e1" = some (ofInt (-5)) := by decide +kernel
example : read? "." = none ∧ read? "1e" = none ∧ read? "" = none := by decide +kernel

end Double
end Repin
