/-
  Repin.Proofs.Text.Blank
  ───────────────────────
  **WHAT TRIMMING LEAVES OF A TEXT.**

  Trimming takes blanks from the two ends only, so a beginning that itself begins and ends
  with other characters stays, and only what follows it loses blanks (`trimmed_append`).
-/
import Mathlib.Data.List.DropRight
import Repin.Proofs.Text.Numeral
import Repin.Text.Class

namespace Repin.Text

theorem isBlank_of_isDigit {c : Char} (h : isDigit c = true) : isBlank c = false := by
  obtain ⟨d, hd, rfl⟩ := exists_eq_digitOf h
  have hall : ∀ d : Fin 10, isBlank (digitOf d.val) = false := by decide
  exact hall ⟨d, hd⟩

theorem trimmed_eq (s : Text) : trimmed s = (s.dropWhile isBlank).rdropWhile isBlank := rfl

/-- A text that ends in no blank stays whole when the blanks behind it are dropped. -/
theorem rdropWhile_append {l : Text} (hl : l ≠ []) (hlast : isBlank (l.getLast hl) = false)
    (r : Text) : (l ++ r).rdropWhile isBlank = l ++ r.rdropWhile isBlank := by
  induction r using List.reverseRecOn with
  | nil =>
    rw [List.rdropWhile_nil, List.append_nil]
    exact List.rdropWhile_eq_self_iff.2 (fun _ => Bool.eq_false_iff.1 hlast)
  | append_singleton r c ih =>
    rw [← List.append_assoc]
    by_cases hc : isBlank c = true
    · rw [List.rdropWhile_concat_pos _ _ _ hc, List.rdropWhile_concat_pos _ _ _ hc, ih]
    · rw [List.rdropWhile_concat_neg _ _ _ hc, List.rdropWhile_concat_neg _ _ _ hc,
        List.append_assoc]

theorem trimmed_append {l : Text} (hl : l ≠ []) (hfirst : isBlank (l.head hl) = false)
    (hlast : isBlank (l.getLast hl) = false) (r : Text) :
    trimmed (l ++ r) = l ++ r.rdropWhile isBlank := by
  have hdrop : (l ++ r).dropWhile isBlank = l ++ r := by
    cases l with
    | nil => exact absurd rfl hl
    | cons c l =>
      have hc : isBlank c = false := hfirst
      exact List.dropWhile_cons_of_neg (Bool.eq_false_iff.1 hc)
  rw [trimmed_eq, hdrop, rdropWhile_append hl hlast]

end Repin.Text
