/-
  Repin.Decimal.Notation
  ──────────────────────
  **HOW NUMBERS OF DOUBLE PRECISION ARE WRITTEN.**

  A number is written with the fewest digits that read back.  A decimal whose
  leading digit stands for 10^x is written positionally for -4 ≤ x < 16, always
  with a digit behind the point, and else with an exponent that has a sign and at
  least two digits:  `600.0`   `0.0001`   `1e+16`   `1.5e-07`.
-/
import Repin.Decimal.Shortest
import Repin.Text.Numeral

namespace Repin

namespace Decimal

/-- A run of zeros. -/
def zeros (n : Nat) : Text := List.replicate n '0'

/-- The digits with the point at its place. -/
def positional (ds : Text) (exponent : Int) : Text :=
  let point := (ds.length : Int) + exponent
  if 0 ≤ exponent then ds ++ zeros exponent.toNat ++ ".0"
  else if 0 < point then ds.take point.toNat ++ '.' :: ds.drop point.toNat
  else "0." ++ zeros (-point).toNat ++ ds

/-- The digits with the point behind the first one, and the power of ten. -/
def scientific (ds : Text) (power : Int) : Text :=
  let fraction : Text := match ds.drop 1 with
    | [] => []
    | rest => '.' :: rest
  ds.take 1 ++ fraction ++ 'e' :: (if power < 0 then '-' else '+') :: Text.padded 10 2 power.natAbs

/-- A decimal as text. -/
def text (d : Decimal) : Text :=
  let ds := Text.digits d.digits
  let power := (ds.length : Int) - 1 + d.exponent
  if -4 ≤ power ∧ power < 16 then positional ds d.exponent else scientific ds power

end Decimal

namespace Double

/-- The text of a number: its sign, if negative, and its shortest decimal. -/
def text : Double → Text
  | .nan => "nan"
  | .infinite negative => sign negative ++ "inf"
  | .finite negative m e =>
    sign negative ++ magnitude m e
where
  /-- The sign of a negative number. -/
  sign (negative : Bool) : Text := if negative then ['-'] else []
  /-- What stands behind the sign. -/
  magnitude (m : Nat) (e : Int) : Text :=
    if m = 0 then ['0', '.', '0'] else (Decimal.shortest m e).text

end Double
end Repin
