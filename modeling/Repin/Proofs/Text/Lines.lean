/-
  Repin.Proofs.Text.Lines
  ───────────────────────
  **LINE ENDS, WHEN A FILE IS READ AND WHEN AN OUTPUT IS SPLIT.**

  Reading a file leaves no carriage return (`return_notMem_unified`), and a text
  without one is not changed by it (`unified_eq_self`), so what a run has read and
  edited it reads again unchanged.

  The first line of a text is what stands before the first character at which a line
  ends (`headD_lines_append`, `exists_append_of_lines`), and no line holds such a
  character (`endsLine_of_mem_lines`).
-/
import Repin.Text.Lines

namespace Repin.Text

/-! ## §1. Reading a file. -/

theorem return_notMem_unified (s : Text) : '\r' ∉ unified s := by
  fun_induction unified s with
  | case1 => simp
  | case2 r ih => simpa using ih
  | case3 c r _ ih =>
    intro h
    rcases List.mem_cons.1 h with h | h
    · split at h
      · exact absurd h (by decide)
      · next hc => exact hc h.symm
    · exact ih h

theorem unified_eq_self {s : Text} (h : '\r' ∉ s) : unified s = s := by
  fun_induction unified s with
  | case1 => rfl
  | case2 r ih => simp at h
  | case3 c r _ ih =>
    rw [List.mem_cons, not_or] at h
    rw [ih h.2, if_neg (fun e => h.1 e.symm)]

/-! ## §2. Splitting a text into lines. -/

theorem lines_cons_of_not {c : Char} (hc : endsLine c = false) (r : Text) :
    lines (c :: r) = (c :: (lines r).headD []) :: (lines r).tail := by
  rw [lines]
  · rw [if_neg (Bool.eq_false_iff.1 hc)]
    cases lines r <;> rfl
  · rintro r' rfl
    cases hc

/-- A line that ends at once is empty; one or two characters end it. -/
theorem exists_lines_cons {c : Char} (hc : endsLine c = true) (r : Text) :
    ∃ r', lines (c :: r) = [] :: lines r' := by
  by_cases hr : c = '\r' ∧ ∃ r', r = '\n' :: r'
  · obtain ⟨rfl, r', rfl⟩ := hr
    exact ⟨r', rfl⟩
  · refine ⟨r, ?_⟩
    rw [lines, if_pos hc]
    intro r' h hr'
    exact hr ⟨h, r', hr'⟩

/-- No line holds a character at which a line ends. -/
theorem endsLine_of_mem_lines {s l : Text} (h : l ∈ lines s) : ∀ c ∈ l, endsLine c = false := by
  fun_induction lines s generalizing l with
  | case1 => cases h
  | case2 r ih =>
    rcases List.mem_cons.1 h with rfl | h
    · exact nofun
    · exact ih h
  | case3 c r _ _ ih =>
    rcases List.mem_cons.1 h with rfl | h
    · exact nofun
    · exact ih h
  | case4 c r _ hc hr ih =>
    rw [List.mem_singleton.1 h]
    intro d hd
    rw [List.mem_singleton.1 hd]
    exact Bool.eq_false_iff.2 hc
  | case5 c r _ hc m ms hr ih =>
    rw [hr] at ih
    rcases List.mem_cons.1 h with rfl | h
    · exact List.forall_mem_cons.2 ⟨Bool.eq_false_iff.2 hc, ih List.mem_cons_self⟩
    · exact ih (List.mem_cons_of_mem m h)

/-- The first line of a text reaches up to the first character at which a line ends. -/
theorem headD_lines_append {l r : Text} (hl : ∀ c ∈ l, endsLine c = false)
    (hr : ∀ c ∈ r.head?, endsLine c = true) : (lines (l ++ r)).headD [] = l := by
  induction l with
  | nil =>
    cases r with
    | nil => rfl
    | cons c r =>
      obtain ⟨r', h⟩ := exists_lines_cons (hr c rfl) r
      show (lines (c :: r)).headD [] = []
      rw [h]
      rfl
  | cons c l ih =>
    obtain ⟨hc, hl⟩ := List.forall_mem_cons.1 hl
    show (lines (c :: (l ++ r))).headD [] = c :: l
    rw [lines_cons_of_not hc, ih hl]
    rfl

/-- A text begins with its first line, and a line ends behind it. -/
theorem exists_append_of_lines (s : Text) : ∃ r, s = (lines s).headD [] ++ r
    ∧ (∀ c ∈ (lines s).headD [], endsLine c = false) ∧ ∀ c ∈ r.head?, endsLine c = true := by
  induction s with
  | nil => exact ⟨[], rfl, nofun, nofun⟩
  | cons c s ih =>
    by_cases hc : endsLine c = true
    · obtain ⟨s', h⟩ := exists_lines_cons hc s
      rw [h]
      exact ⟨c :: s, rfl, nofun, by simpa using hc⟩
    · obtain ⟨r, hs, hl, hr⟩ := ih
      have hc := Bool.eq_false_iff.2 hc
      rw [lines_cons_of_not hc]
      refine ⟨r, ?_, List.forall_mem_cons.2 ⟨hc, hl⟩, hr⟩
      show c :: s = c :: (_ ++ r)
      rw [← hs]

end Repin.Text
