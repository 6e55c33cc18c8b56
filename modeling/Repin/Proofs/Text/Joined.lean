/-
  Repin.Proofs.Text.Joined
  ────────────────────────
  **TEXTS WITH A CHARACTER BETWEEN EACH TWO.**

  A joined text holds the characters of its parts and the one between them, and no other
  (`mem_of_mem_intercalate`, `mem_intercalate_of_mem`).  If no part is empty, it begins and
  ends as one of them (`exists_of_mem_head?_intercalate`, `exists_of_mem_getLast?_intercalate`).
-/
import Repin.Text.Basic

namespace Repin.Text

variable {c d : Char} {parts : List Text}

/-- A character of a joined text is the one between two parts, or one of a part. -/
theorem mem_of_mem_intercalate (h : c ∈ [d].intercalate parts) : c = d ∨ ∃ t ∈ parts, c ∈ t := by
  induction parts with
  | nil => cases h
  | cons t parts ih =>
    cases parts with
    | nil =>
      rw [List.intercalate_singleton] at h
      exact .inr ⟨t, List.mem_cons_self, h⟩
    | cons u parts =>
      rw [List.intercalate_cons_cons, List.mem_append, List.mem_append] at h
      rcases h with (h | h) | h
      · exact .inr ⟨t, List.mem_cons_self, h⟩
      · exact .inl (List.mem_singleton.1 h)
      · rcases ih h with h | ⟨v, hv, hc⟩
        · exact .inl h
        · exact .inr ⟨v, List.mem_cons_of_mem t hv, hc⟩

theorem mem_intercalate_of_mem {t : Text} (ht : t ∈ parts) (hc : c ∈ t) :
    c ∈ [d].intercalate parts := by
  induction parts with
  | nil => cases ht
  | cons u parts ih =>
    cases parts with
    | nil =>
      rw [List.intercalate_singleton, ← List.mem_singleton.1 ht]
      exact hc
    | cons v parts =>
      rw [List.intercalate_cons_cons, List.mem_append, List.mem_append]
      rcases List.mem_cons.1 ht with rfl | ht
      · exact .inl (.inl hc)
      · exact .inr (ih ht)

theorem exists_of_mem_head?_intercalate (h : ∀ t ∈ parts, t ≠ [])
    (hc : c ∈ ([d].intercalate parts).head?) : ∃ t ∈ parts, c ∈ t.head? := by
  cases parts with
  | nil => cases hc
  | cons t parts =>
    refine ⟨t, List.mem_cons_self, ?_⟩
    cases parts with
    | nil =>
      rw [List.intercalate_singleton] at hc
      exact hc
    | cons u parts =>
      obtain ⟨x, t, rfl⟩ := List.exists_cons_of_ne_nil (h t List.mem_cons_self)
      rw [List.intercalate_cons_cons] at hc
      exact hc

theorem intercalate_ne_nil {t : Text} (ht : t ≠ []) : [d].intercalate (t :: parts) ≠ [] := by
  cases parts with
  | nil =>
    rw [List.intercalate_singleton]
    exact ht
  | cons u parts =>
    rw [List.intercalate_cons_cons]
    simp [ht]

theorem exists_of_mem_getLast?_intercalate (h : ∀ t ∈ parts, t ≠ [])
    (hc : c ∈ ([d].intercalate parts).getLast?) : ∃ t ∈ parts, c ∈ t.getLast? := by
  induction parts with
  | nil => cases hc
  | cons t parts ih =>
    cases parts with
    | nil =>
      rw [List.intercalate_singleton] at hc
      exact ⟨t, List.mem_cons_self, hc⟩
    | cons u parts =>
      obtain ⟨hu, hrest⟩ := List.forall_mem_cons.1 (List.forall_mem_cons.1 h).2
      rw [List.intercalate_cons_cons, List.getLast?_append, List.getLast?_eq_some_getLast
        (intercalate_ne_nil hu), Option.some_or, ← List.getLast?_eq_some_getLast] at hc
      obtain ⟨v, hv, hcv⟩ := ih (List.forall_mem_cons.2 ⟨hu, hrest⟩) hc
      exact ⟨v, List.mem_cons_of_mem t hv, hcv⟩

end Repin.Text
