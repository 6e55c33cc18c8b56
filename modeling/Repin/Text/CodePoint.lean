/-
  Repin.Text.CodePoint
  ────────────────────
  **CODE POINTS, LONE SURROGATES INCLUDED.**

  A document can hold an escape for half of a surrogate pair without its other
  half.  Such a half is no character, so what has been read from a document is a
  list of code points: characters and lone surrogates.
-/
import Repin.Text.Basic

namespace Repin

/-- One code point of a text that may hold unpaired surrogates. -/
inductive CodePoint where
  /-- A character. -/
  | char (c : Char)
  /-- The surrogate U+D800 + `offset`, unpaired. -/
  | surrogate (offset : Fin 2048)
  deriving DecidableEq, Repr

namespace CodePoint

/-- The number of the code point. -/
def toNat : CodePoint → Nat
  | .char c => c.toNat
  | .surrogate s => 0xD800 + s.val

/-- The code point of number `n`, if there is one. -/
def ofNat? (n : Nat) : Option CodePoint :=
  if n.isValidChar then some (.char (Char.ofNat n))
  else if h : 0xD800 ≤ n ∧ n < 0xE000 then some (.surrogate ⟨n - 0xD800, by omega⟩)
  else none

/-- The character, if the code point is one. -/
def char? : CodePoint → Option Char
  | .char c => some c
  | .surrogate _ => none

/-- A text as code points. -/
def ofText (s : Text) : List CodePoint := s.map .char

/-- The text that the code points are, if none of them is a surrogate. -/
def text? (s : List CodePoint) : Option Text := s.mapM char?

@[simp] theorem ofText_nil : ofText [] = [] := rfl

@[simp] theorem ofText_cons (c : Char) (s : Text) : ofText (c :: s) = .char c :: ofText s := rfl

@[simp] theorem ofText_append (s t : Text) : ofText (s ++ t) = ofText s ++ ofText t :=
  List.map_append

theorem text?_ofText (s : Text) : text? (ofText s) = some s := by
  induction s with
  | nil => rfl
  | cons c s ih =>
    simp only [text?, ofText, List.map_cons, List.mapM_cons] at ih ⊢
    simp [ih, char?]

theorem text?_eq_some_iff {s : List CodePoint} {t : Text} : text? s = some t ↔ s = ofText t := by
  constructor
  · intro h
    induction s generalizing t with
    | nil =>
      cases h
      rfl
    | cons p s ih =>
      unfold text? at h ih
      rw [List.mapM_cons] at h
      obtain ⟨c, hc, h⟩ := Option.bind_eq_some_iff.1 h
      obtain ⟨u, hu, h⟩ := Option.bind_eq_some_iff.1 h
      cases h
      cases p with
      | surrogate n => cases hc
      | char d =>
        cases hc
        rw [ih hu]
        rfl
  · intro h
    rw [h]
    exact text?_ofText t

/-- A text is determined by its code points. -/
theorem ofText_inj {s t : Text} : ofText s = ofText t ↔ s = t := by
  constructor
  · intro h
    have htext := congrArg text? h
    rw [text?_ofText, text?_ofText] at htext
    exact Option.some.inj htext
  · intro h
    rw [h]

end CodePoint
end Repin
