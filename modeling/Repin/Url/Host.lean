/-
  Repin.Url.Host
  ──────────────
  **NUMBERED HOSTS.**

  A host may be named by its number: four decimal numbers with points between
  them, or up to eight hexadecimal ones with colons between them.
-/
import Repin.Text.Numeral
import Repin.Text.Replace

namespace Repin.Url

/-! ## §1. Four decimal numbers. -/

/-- Runs of digits with one character between each two: `more` runs are to come
behind the present one, of which a digit has been read if `inRun` says so. -/
def runsFrom : (more : Nat) → (inRun : Bool) → Text → Bool
  | more, inRun, [] => inRun && more = 0
  | more, false, c :: r => Text.isDigit c && runsFrom more true r
  | 0, true, c :: r => Text.isDigit c && runsFrom 0 true r
  | more + 1, true, c :: r =>
    (Text.isDigit c && runsFrom (more + 1) true r) || runsFrom more false r

/-- Is it four runs of digits with one character between each two? -/
def looksQuad (s : Text) : Bool := runsFrom 3 false s

/-- A number below 256 in canonical decimal. -/
def isOctet (s : Text) : Bool := (Text.natural? s).any (· < 256)

/-- Four numbers below 256 with points between them. -/
def isQuad (s : Text) : Bool :=
  let parts := s.splitOn '.'
  parts.length = 4 && parts.all isOctet

/-! ## §2. Eight hexadecimal numbers. -/

/-- One to four hexadecimal digits. -/
def isHextet (s : Text) : Bool :=
  0 < s.length && s.length ≤ 4 && s.all (fun c => (Text.digitValue? c).isSome)

/-- How many numbers of sixteen bits the parts of an address hold, if each part is
one; four decimal numbers, which are two of them, may come last. -/
def hextets? : List Text → Option Nat
  | [] => some 0
  | [s] => if isHextet s then some 1 else if isQuad s then some 2 else none
  | s :: r => if isHextet s then (hextets? r).map (· + 1) else none

/-- The parts between colons; none in an empty text. -/
def colonParts (s : Text) : List Text := if s = [] then [] else s.splitOn ':'

/-- Eight hexadecimal numbers with colons between them; two colons together stand
for at least one zero. -/
def isHexAddress (s : Text) : Bool :=
  match Text.splitFirst? "::" s with
  | none => hextets? (colonParts s) = some 8
  | some (a, b) =>
    (colonParts a).all isHextet
      && (hextets? (colonParts b)).any (fun n => (colonParts a).length + n < 8)

/-- The text before a percent sign and the zone behind it, which must not be empty
and must not hold another percent sign. -/
def isZoned (s : Text) : Bool :=
  match Text.cut '%' s with
  | (a, none) => isHexAddress a
  | (a, some zone) => !zone.isEmpty && !zone.contains '%' && isHexAddress a

example : looksQuad "1.2.3.400" = true ∧ isQuad "1.2.3.400" = false := by decide +kernel
example : isZoned "::1" = true ∧ isZoned "1:2:3:4:5:6:1.2.3.4" = true ∧ isZoned "1::2::3" = false := by
  decide +kernel

end Repin.Url
