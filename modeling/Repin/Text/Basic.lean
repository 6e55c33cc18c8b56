/-
  Repin.Text.Basic
  ────────────────
  **TEXT AS A LIST OF CHARACTERS.**

  Every rule of this library that reads or writes text is a recursion on the
  characters, so text is the list of them.  A string literal stands for its
  characters wherever a `Text` is expected, and fields are split and put
  together with the list operations `splitOn` and `intercalate`.

  Three small operations are added, two of them with the law that pins them down:

      cut c s      — the part before the first `c`, and what follows it
      behind? p s  — what follows the beginning `p`:   some r  ↔  s = p ++ r
      lowered s    — the same text without ASCII capitals
-/

namespace Repin

/-- A text: its characters, in order. -/
abbrev Text := List Char

instance : Coe String Text := ⟨String.toList⟩

namespace Text

/-! ## §1. Taking text apart. -/

/-- The part of a text before the first `c`, and what follows that `c`; `none`
when `c` does not occur. -/
def cut (c : Char) : Text → Text × Option Text
  | [] => ([], none)
  | x :: r => if x = c then ([], some r) else (x :: (cut c r).1, (cut c r).2)

/-- The part of a text that follows the beginning `p`, if the text begins so. -/
def behind? : Text → Text → Option Text
  | [], s => some s
  | _ :: _, [] => none
  | c :: p, x :: s => if c = x then behind? p s else none

/-- The text with the ASCII capitals as small letters. -/
def lowered (s : Text) : Text := s.map Char.toLower

/-! ## §2. Laws. -/

theorem cut_eq_self {c : Char} {s : Text} (h : c ∉ s) : cut c s = (s, none) := by
  induction s with
  | nil => rfl
  | cons x r ih =>
    have hx : x ≠ c := fun e => h (by simp [e])
    have hr : c ∉ r := fun m => h (by simp [m])
    simp [cut, hx, ih hr]

theorem cut_append {c : Char} {s t : Text} (h : c ∉ s) : cut c (s ++ c :: t) = (s, some t) := by
  induction s with
  | nil => simp [cut]
  | cons x r ih =>
    have hx : x ≠ c := fun e => h (by simp [e])
    have hr : c ∉ r := fun m => h (by simp [m])
    simp [cut, hx, ih hr]

theorem behind?_eq_some_iff {p s r : Text} : behind? p s = some r ↔ s = p ++ r := by
  induction p generalizing s with
  | nil => simp [behind?]
  | cons c p ih =>
    cases s with
    | nil => simp [behind?]
    | cons x s =>
      by_cases h : c = x
      · simp [behind?, h, ih]
      · simp [behind?, h, Ne.symm h]

theorem behind?_append (p r : Text) : behind? p (p ++ r) = some r :=
  behind?_eq_some_iff.2 rfl

end Text
end Repin
