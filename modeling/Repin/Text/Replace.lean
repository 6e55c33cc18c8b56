/-
  Repin.Text.Replace
  ──────────────────
  **REPLACING EVERY OCCURRENCE OF A TEXT.**

  The occurrences of `old` are found from left to right and do not overlap:
  each search goes on behind the occurrence found last.  `segments old s` is
  the list of what lies between them, so for a nonempty `old`

      old.intercalate (segments old s) = s .

  Counting and replacing are both read off this one list.  An empty `old`
  occurs before, between and behind all characters.
-/
import Repin.Text.Basic

namespace Repin.Text

/-! ## §1. The first occurrence. -/

/-- What lies before the first occurrence of `old`, and what follows it. -/
def splitFirst? (old : Text) : Text → Option (Text × Text)
  | [] => (behind? old []).map (fun r => ([], r))
  | c :: s =>
    match behind? old (c :: s) with
    | some r => some ([], r)
    | none => (splitFirst? old s).map (fun p => (c :: p.1, p.2))

theorem splitFirst?_append {old s a b : Text} (h : splitFirst? old s = some (a, b)) :
    s = a ++ (old ++ b) := by
  induction s generalizing a b with
  | nil =>
    simp only [splitFirst?, Option.map_eq_some_iff, Prod.mk.injEq] at h
    obtain ⟨r, hr, rfl, rfl⟩ := h
    simpa using behind?_eq_some_iff.1 hr
  | cons c s ih =>
    simp only [splitFirst?] at h
    split at h
    · next r hr =>
      cases h
      simpa using behind?_eq_some_iff.1 hr
    · simp only [Option.map_eq_some_iff, Prod.mk.injEq] at h
      obtain ⟨⟨x, y⟩, hp, rfl, rfl⟩ := h
      simp [ih hp]

/-! ## §2. What lies between the occurrences. -/

/-- The parts of `s` that lie before, between and behind the occurrences of
`old`: one more than there are occurrences. -/
def segments (old s : Text) : List Text :=
  if old = [] then [] :: s.map (fun c => [c]) ++ [[]]
  else
    match _h : splitFirst? old s with
    | none => [s]
    | some (a, b) => a :: segments old b
termination_by s.length
decreasing_by
  have := congrArg List.length (splitFirst?_append _h)
  have : 0 < old.length := List.length_pos_iff.2 (by assumption)
  simp only [List.length_append] at *
  omega

/-- How often `old` occurs in `s`. -/
def occurrences (old s : Text) : Nat := (segments old s).length - 1

/-- The text `s` with every occurrence of `old` replaced by `new`. -/
def replaced (old new s : Text) : Text := new.intercalate (segments old s)

end Repin.Text
