/-
  Repin.Version.Order
  ───────────────────
  **PRECEDENCE OF VERSIONS.**

  Versions are ordered by their three numbers, then by their pre-release part:
  a pre-release comes before its release; identifiers are compared one by one, a
  number before a word, numbers by value and words by code points; of two lists
  where one begins the other, the shorter comes first.  The build part does not
  count.
-/
import Repin.Version.Basic

namespace Repin

/-- Order of two words, by code points. -/
def Text.compare : Text → Text → Ordering
  | [], [] => .eq
  | [], _ :: _ => .lt
  | _ :: _, [] => .gt
  | a :: s, b :: t => (Ord.compare a.toNat b.toNat).then (Text.compare s t)

/-- Order of two pre-release identifiers. -/
def Identifier.compare : Identifier → Identifier → Ordering
  | .number a, .number b => Ord.compare a b
  | .number _, .word _ => .lt
  | .word _, .number _ => .gt
  | .word s, .word t => Text.compare s t

namespace Version

/-- Order of two lists of pre-release identifiers, field by field. -/
def compareFields : List Identifier → List Identifier → Ordering
  | [], [] => .eq
  | [], _ :: _ => .lt
  | _ :: _, [] => .gt
  | a :: s, b :: t => (a.compare b).then (compareFields s t)

/-- Order of two pre-release parts; the absent one comes last. -/
def comparePre : List Identifier → List Identifier → Ordering
  | [], [] => .eq
  | [], _ :: _ => .gt
  | _ :: _, [] => .lt
  | s, t => compareFields s t

/-- Order of two versions by precedence. -/
def compare (v w : Version) : Ordering :=
  (Ord.compare v.major w.major).then <|
  (Ord.compare v.minor w.minor).then <|
  (Ord.compare v.patch w.patch).then <|
  comparePre v.pre w.pre

/-- Does `v` not come after `w`? -/
def notAfter (v w : Version) : Bool := (v.compare w).isLE

end Version
end Repin
