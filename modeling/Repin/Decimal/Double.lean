/-
  Repin.Decimal.Double
  ────────────────────
  **BINARY FLOATING-POINT NUMBERS OF DOUBLE PRECISION.**

  A finite number is a sign, a mantissa below 2^53 and a power of two:

      ± mantissa · 2^exponent            -1074 ≤ exponent ≤ 971

  with a mantissa of 53 bits unless the exponent is the least one.  `ofDecimal`
  rounds a decimal to the nearest number, a half to the even neighbour, by exact
  arithmetic on natural numbers; no machine number is involved.
-/

namespace Repin

/-- A number of double precision. -/
inductive Double where
  /-- Not a number. -/
  | nan
  /-- An infinity. -/
  | infinite (negative : Bool)
  /-- A finite number, zeros of both signs included. -/
  | finite (negative : Bool) (mantissa : Nat) (exponent : Int)
  deriving DecidableEq, Repr

namespace Double

/-! ## §1. Rounding. -/

/-- The least exponent. -/
def leastExponent : Int := -1074

/-- The greatest exponent. -/
def greatestExponent : Int := 971

/-- The quotient rounded to the nearest natural number, a half to the even one. -/
def roundedQuotient (num den : Nat) : Nat :=
  let q := num / den
  let twice := 2 * (num % den)
  if twice < den then q
  else if den < twice then q + 1
  else if q % 2 = 0 then q else q + 1

/-- The quotient of `num` by `den` times a power of two, rounded. -/
def roundedAt (num den : Nat) (exponent : Int) : Nat :=
  roundedQuotient (num * Nat.pow 2 (-exponent).toNat) (den * Nat.pow 2 exponent.toNat)

/-- The exponent at which a positive quotient has a mantissa of 53 bits. -/
def exponentOf (num den : Nat) : Int :=
  -- The logarithms give the exponent up to one.
  let e : Int := (num.log2 : Int) - den.log2 - 53
  if num * Nat.pow 2 (-e).toNat < den * Nat.pow 2 e.toNat * Nat.pow 2 53 then e else e + 1

/-- The number nearest to a positive quotient. -/
def ofQuotient (negative : Bool) (num den : Nat) : Double :=
  let e := max (exponentOf num den) leastExponent
  let m := roundedAt num den e
  -- Rounding up can bring in a bit more, which moves into the exponent.
  let (m, e) := if m = Nat.pow 2 53 then (Nat.pow 2 52, e + 1) else (m, e)
  if greatestExponent < e then .infinite negative else .finite negative m e

/-! ## §2. Numbers from decimals and integers. -/

/-- The zero of a sign. -/
def zero (negative : Bool) : Double := .finite negative 0 leastExponent

/-- How many decimal digits a natural number has; one for zero. -/
def digitCount (n : Nat) : Nat :=
  if _h : n < 10 then 1 else digitCount (n / 10) + 1

/-- The number nearest to `digits · 10^exponent`.  A decimal of at least 10^310
is beyond the largest number and one below 10^-330 rounds to zero, so no power
of ten is formed for them. -/
def ofDecimal (negative : Bool) (digits : Nat) (exponent : Int) : Double :=
  let size := (digitCount digits : Int) + exponent
  if digits = 0 then zero negative
  else if 310 < size then .infinite negative
  else if size < -330 then zero negative
  else ofQuotient negative (digits * Nat.pow 10 exponent.toNat) (Nat.pow 10 (-exponent).toNat)

/-- The number nearest to an integer. -/
def ofInt (n : Int) : Double := ofDecimal (decide (n < 0)) n.natAbs 0

/-! ## §3. Whole numbers. -/

/-- The integer that a finite number equals, if it is a whole number. -/
def int? : Double → Option Int
  | .finite negative m e =>
    let sign (n : Nat) : Int := if negative then -n else n
    if 0 ≤ e then some (sign (m * Nat.pow 2 e.toNat))
    else if m % Nat.pow 2 (-e).toNat = 0 then some (sign (m / Nat.pow 2 (-e).toNat))
    else none
  | _ => none

/-- Neither an infinity nor undefined. -/
def isFinite : Double → Bool
  | .finite .. => true
  | _ => false

example : ofInt 1 = .finite false (2 ^ 52) (-52) := by decide +kernel
example : ofDecimal false 1 400 = .infinite false := by decide +kernel
example : ofDecimal true 5 (-324) = .finite true 1 (-1074) := by decide +kernel
example : ofDecimal false 9007199254740993 0 = .finite false (2 ^ 52) 1 := by decide +kernel
example : (ofDecimal false 50 (-1)).int? = some 5 := by decide +kernel

end Double
end Repin
