/-
  Repin.Json.Basic
  ────────────────
  **JSON VALUES.**

  Integers are kept apart from other numbers and are unbounded.  A string may
  hold unpaired surrogates.  The members of an object keep their order, and each
  name occurs once: setting a member that is there keeps its place, setting a new
  one puts it last.
-/
import Repin.Decimal.Double
import Repin.Text.CodePoint

namespace Repin

/-- A JSON value. -/
inductive Json where
  | null
  | bool (b : Bool)
  /-- A number without a fraction and without an exponent. -/
  | int (n : Int)
  /-- Any other number. -/
  | float (x : Double)
  | string (s : List CodePoint)
  | array (elements : List Json)
  /-- An object by its members, in order. -/
  | object (members : List (List CodePoint × Json))
  deriving Repr

namespace Json

/-- The members of an object. -/
abbrev Members := List (List CodePoint × Json)

/-- A text as a JSON string. -/
def ofText (s : Text) : Json := .string (CodePoint.ofText s)

namespace Members

/-- The value of the member with the given name. -/
def get? (name : List CodePoint) (ms : Members) : Option Json :=
  (ms.find? (fun m => m.1 = name)).map Prod.snd

/-- The members with the one of the given name set to `v`: in its place if it is
there, at the end if not. -/
def set (name : List CodePoint) (v : Json) : Members → Members
  | [] => [(name, v)]
  | m :: ms => if m.1 = name then (name, v) :: ms else m :: set name v ms

/-- Members as an object keeps them, from members as they are written: the last
value of a repeated name, at the place of the first. -/
def ofWritten (ms : Members) : Members := ms.foldl (fun acc m => set m.1 m.2 acc) []

theorem get?_set_self (name : List CodePoint) (v : Json) (ms : Members) :
    (set name v ms).get? name = some v := by
  induction ms with
  | nil => simp [set, get?]
  | cons m ms ih =>
    by_cases h : m.1 = name
    · simp [set, h, get?]
    · simp only [set, h, if_false, get?] at ih ⊢
      simpa [List.find?_cons, h] using ih

theorem get?_set_of_ne {name other : List CodePoint} (h : other ≠ name) (v : Json)
    (ms : Members) : (set name v ms).get? other = ms.get? other := by
  induction ms with
  | nil => simp [set, get?, Ne.symm h]
  | cons m ms ih =>
    by_cases hm : m.1 = name
    · simp [set, hm, get?, Ne.symm h]
    · simp only [set, hm, if_false, get?, List.find?_cons] at ih ⊢
      split <;> simp_all

end Members
end Json
end Repin
