/-
  Repin.Decimal.Shortest
  ──────────────────────
  **THE SHORTEST DECIMAL THAT READS BACK.**

  The reals that round to a number form an interval, which contains its ends
  exactly when the mantissa is even.  `shortest` finds the decimal of fewest
  digits in that interval, and of those the nearest to the number; an exact tie
  goes to the even digit.  It tries the two neighbours of the number on the
  grids of one, two, … seventeen digits in turn, all in exact arithmetic.
-/
import Repin.Decimal.Double

namespace Repin

/-- The decimal `digits · 10^exponent`. -/
structure Decimal where
  digits : Nat
  exponent : Int
  deriving DecidableEq, Repr

namespace Decimal

/-! ## §1. Comparing decimals with binary numbers. -/

/-- Compares `digits · 10^exponent` with `m · 2^e`. -/
def compareBinary (d : Decimal) (m : Nat) (e : Int) : Ordering :=
  compare (d.digits * Nat.pow 10 d.exponent.toNat * Nat.pow 2 (-e).toNat)
    (m * Nat.pow 2 e.toNat * Nat.pow 10 (-d.exponent).toNat)

/-- Does the number below `m · 2^e` have half the distance of the one above? -/
def isNarrowBelow (m : Nat) (e : Int) : Bool :=
  m = Nat.pow 2 52 && Double.leastExponent < e

/-- Does the decimal lie among the reals that round to `m · 2^e`? -/
def readsBackTo (d : Decimal) (m : Nat) (e : Int) : Bool :=
  -- Both ends of the interval, in quarters of the last bit.
  let below := d.compareBinary (4 * m - (if isNarrowBelow m e then 1 else 2)) (e - 2)
  let above := d.compareBinary (4 * m + 2) (e - 2)
  let ends := m % 2 = 0
  (below == .gt || (ends && below == .eq)) && (above == .lt || (ends && above == .eq))

/-! ## §2. The search. -/

/-- The power of ten above `m · 2^e`: the least `k` with `m · 2^e < 10^k`. -/
def scale (m : Nat) (e : Int) : Int :=
  -- The logarithm to the base two, times that of two to the base ten.
  let guess := (((m.log2 : Int) + e) * 30103).fdiv 100000
  let above (k : Int) : Bool := compareBinary ⟨1, k⟩ m e == .gt
  (([guess - 1, guess, guess + 1].find? above).getD (guess + 2))

/-- The multiple of `10^grid` at or below `m · 2^e`, in units of the grid. -/
def floorAt (m : Nat) (e grid : Int) : Nat :=
  (m * Nat.pow 2 e.toNat * Nat.pow 10 (-grid).toNat) / (Nat.pow 10 grid.toNat * Nat.pow 2 (-e).toNat)

/-- The better of the two neighbours of `m · 2^e` on a grid, of those that read
back: the nearer one, and of two equally near ones the even one. -/
def onGrid? (m : Nat) (e grid : Int) : Option Decimal :=
  let low := floorAt m e grid
  let down : Decimal := ⟨low, grid⟩
  let up : Decimal := ⟨low + 1, grid⟩
  match down.readsBackTo m e, up.readsBackTo m e with
  | true, false => some down
  | false, true => some up
  | false, false => none
  | true, true =>
    -- Compared with the middle between the two neighbours.
    match compareBinary ⟨2 * low + 1, grid⟩ (2 * m) e with
    | .gt => some down
    | .lt => some up
    | .eq => some (if low % 2 = 0 then down else up)

/-- The decimal without zeros at its end. -/
def stripped (digits : Nat) (exponent : Int) : Decimal :=
  if h : digits ≠ 0 ∧ digits % 10 = 0 then stripped (digits / 10) (exponent + 1)
  else ⟨digits, exponent⟩
termination_by digits
decreasing_by exact Nat.div_lt_self (Nat.pos_of_ne_zero h.1) (by omega)

/-- The exact value of `m · 2^e`. -/
def exact (m : Nat) (e : Int) : Decimal :=
  if 0 ≤ e then ⟨m * Nat.pow 2 e.toNat, 0⟩ else ⟨m * Nat.pow 5 (-e).toNat, e⟩

/-- The shortest decimal that reads back as `m · 2^e`, for a positive mantissa. -/
def shortest (m : Nat) (e : Int) : Decimal :=
  let k := scale m e
  let found := (List.range 17).findSome? (fun (n : Nat) => onGrid? m e (k - n - 1))
  let d := found.getD (exact m e)
  stripped d.digits d.exponent

end Decimal
end Repin
