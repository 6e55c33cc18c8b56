/-
  Repin.Proofs.Text.Trimmed
  ─────────────────────────
  **THE LINES OF A TRIMMED TEXT.**

  Every character at which a line ends is a blank, so trimming a text takes away empty
  lines at its beginning and at its end.  It takes away nothing else, unless a line itself
  begins or ends with a blank (`lines_trimmed`).
-/
import Repin.Proofs.Text.Blank
import Repin.Proofs.Text.Lines

namespace Repin.Text

/-! ## §1. Dropping from both ends. -/

variable {α : Type} {p q : α → Bool} {l : List α}

/-- Nothing before `l` is dropped if something of `l` stays. -/
theorem rdropWhile_append_of_ne_nil (h : l.rdropWhile p ≠ []) (e : List α) :
    (e ++ l).rdropWhile p = e ++ l.rdropWhile p := by
  have hne : l.reverse.dropWhile p ≠ [] := fun he => h (congrArg List.reverse he)
  unfold List.rdropWhile
  rw [List.reverse_append, List.dropWhile_append, if_neg (fun he => hne (List.isEmpty_iff.1 he)),
    List.reverse_append, List.reverse_reverse]

theorem rdropWhile_append_of_eq_nil (h : l.rdropWhile p = []) (e : List α) :
    (e ++ l).rdropWhile p = e.rdropWhile p := by
  have hnil : l.reverse.dropWhile p = [] := List.reverse_eq_nil_iff.1 h
  unfold List.rdropWhile
  rw [List.reverse_append, List.dropWhile_append, if_pos (List.isEmpty_iff.2 hnil)]

theorem rdropWhile_cons_of_ne_nil {a : α} (h : (a :: l).rdropWhile p ≠ []) :
    (a :: l).rdropWhile p = a :: l.rdropWhile p := by
  by_cases hl : l.rdropWhile p = []
  · rw [← List.singleton_append, rdropWhile_append_of_eq_nil hl, List.rdropWhile_singleton] at h ⊢
    split at h
    · exact absurd rfl h
    · next ha => rw [if_neg ha, hl]
  · exact rdropWhile_append_of_ne_nil hl [a]

/-- What is not looked for can be dropped from both ends before one looks. -/
theorem find?_rdropWhile_dropWhile (h : ∀ a, q a = true → p a = false) (l : List α) :
    ((l.dropWhile q).rdropWhile q).find? p = l.find? p := by
  have hnone : ∀ {m : List α}, (∀ a ∈ m, q a = true) → m.find? p = none := by
    intro m hm
    refine List.find?_eq_none.2 (fun a ha => ?_)
    rw [h a (hm a ha)]
    exact Bool.false_ne_true
  have hfront : (l.dropWhile q).find? p = l.find? p := by
    conv_rhs => rw [← List.takeWhile_append_dropWhile (p := q) (l := l)]
    rw [List.find?_append, hnone (fun a ha => List.mem_takeWhile_imp ha), Option.none_or]
  rw [← hfront]
  generalize l.dropWhile q = m
  conv_rhs => rw [← List.rdropWhile_append_rtakeWhile (p := q) (l := m)]
  rw [List.find?_append, hnone (fun a ha => List.mem_rtakeWhile_imp ha), Option.or_none]

/-! ## §2. Lines. -/

theorem isBlank_of_endsLine {c : Char} (h : endsLine c = true) : isBlank c = true := by
  unfold endsLine at h
  simp only [Bool.or_eq_true, Bool.and_eq_true, decide_eq_true_eq] at h
  unfold isBlank isSpace within spaceRanges
  simp only [List.any_cons, List.any_nil, Bool.or_false, Bool.or_eq_true, Bool.and_eq_true,
    decide_eq_true_eq]
  omega

theorem lines_eq_nil_iff {s : Text} : lines s = [] ↔ s = [] := by
  constructor
  · intro h
    cases s with
    | nil => rfl
    | cons c s =>
      by_cases hc : endsLine c = true
      · obtain ⟨r, hr⟩ := exists_lines_cons hc s
        rw [hr] at h
        cases h
      · rw [lines_cons_of_not (Bool.eq_false_iff.2 hc)] at h
        cases h
  · rintro rfl
    rfl

/-- No line begins or ends with a blank. -/
def NoBlankEnds (ls : List Text) : Prop :=
  ∀ l ∈ ls, (∀ c ∈ l.head?, isBlank c = false) ∧ ∀ c ∈ l.getLast?, isBlank c = false

theorem lines_dropWhile {s : Text} (h : ∀ l ∈ lines s, ∀ c ∈ l.head?, isBlank c = false) :
    lines (s.dropWhile isBlank) = (lines s).dropWhile List.isEmpty := by
  fun_induction lines s with
  | case1 => rfl
  | case2 r ih => exact ih (fun l hl => h l (List.mem_cons_of_mem [] hl))
  | case3 c r _ hc ih =>
    rw [List.dropWhile_cons_of_pos (isBlank_of_endsLine hc), List.dropWhile_cons_of_pos rfl]
    exact ih (fun l hl => h l (List.mem_cons_of_mem [] hl))
  | case4 c r _ hc hr _ =>
    have hb : isBlank c = false := h _ List.mem_cons_self c rfl
    rw [List.dropWhile_cons_of_neg (Bool.eq_false_iff.1 hb),
      lines_cons_of_not (Bool.eq_false_iff.2 hc), hr]
    rfl
  | case5 c r _ hc m ms hr _ =>
    have hb : isBlank c = false := h _ List.mem_cons_self c rfl
    rw [List.dropWhile_cons_of_neg (Bool.eq_false_iff.1 hb),
      lines_cons_of_not (Bool.eq_false_iff.2 hc), hr]
    rfl

/-- The end of a line is dropped if nothing but blanks is left behind it. -/
theorem lines_rdropWhile_append {e r : Text} {ls : List Text} (he : ∀ c ∈ e, isBlank c = true)
    (hcut : ∀ r', r' <+: r → lines (e ++ r') = [] :: lines r')
    (hr : lines (r.rdropWhile isBlank) = ls.rdropWhile List.isEmpty) :
    lines ((e ++ r).rdropWhile isBlank) = ([] :: ls).rdropWhile List.isEmpty := by
  show _ = ([[]] ++ ls).rdropWhile List.isEmpty
  by_cases hnil : r.rdropWhile isBlank = []
  · rw [hnil] at hr
    rw [rdropWhile_append_of_eq_nil hnil, rdropWhile_append_of_eq_nil hr.symm,
      List.rdropWhile_eq_nil_iff.2 he]
    rfl
  · have hne : ls.rdropWhile List.isEmpty ≠ [] := by
      rw [← hr]
      exact fun h => hnil (lines_eq_nil_iff.1 h)
    rw [rdropWhile_append_of_ne_nil hnil, rdropWhile_append_of_ne_nil hne,
      hcut _ (List.rdropWhile_prefix isBlank r), hr]
    rfl

/-- What ends no line stays with the line behind it. -/
theorem lines_rdropWhile_cons {c : Char} {r m : Text} {ms : List Text} (hc : endsLine c = false)
    (hb : m = [] → isBlank c = false)
    (hr : lines (r.rdropWhile isBlank) = (m :: ms).rdropWhile List.isEmpty) :
    lines ((c :: r).rdropWhile isBlank) = ((c :: m) :: ms).rdropWhile List.isEmpty := by
  -- The first line stays, since it is not empty.
  have hfirst : ((c :: m) :: ms).rdropWhile List.isEmpty
      = (c :: m) :: ms.rdropWhile List.isEmpty :=
    rdropWhile_cons_of_ne_nil
      (fun he => absurd (List.rdropWhile_eq_nil_iff.1 he _ List.mem_cons_self) Bool.false_ne_true)
  rw [hfirst]
  show lines (([c] ++ r).rdropWhile isBlank) = _
  by_cases hnil : r.rdropWhile isBlank = []
  · -- It is the last one then, and ends at once.
    rw [hnil] at hr
    have hempty := List.rdropWhile_eq_nil_iff.1 hr.symm
    obtain rfl : m = [] := List.isEmpty_iff.1 (hempty m List.mem_cons_self)
    have hms : ms.rdropWhile List.isEmpty = [] :=
      List.rdropWhile_eq_nil_iff.2 (fun l hl => hempty l (List.mem_cons_of_mem [] hl))
    rw [rdropWhile_append_of_eq_nil hnil, hms, List.rdropWhile_singleton,
      if_neg (Bool.eq_false_iff.1 (hb rfl)), lines_cons_of_not hc]
    rfl
  · have hne : (m :: ms).rdropWhile List.isEmpty ≠ [] := by
      rw [← hr]
      exact fun he => hnil (lines_eq_nil_iff.1 he)
    rw [rdropWhile_append_of_ne_nil hnil]
    show lines (c :: r.rdropWhile isBlank) = _
    rw [lines_cons_of_not hc, hr, rdropWhile_cons_of_ne_nil hne]
    rfl

theorem lines_rdropWhile {s : Text} (h : ∀ l ∈ lines s, ∀ c ∈ l.getLast?, isBlank c = false) :
    lines (s.rdropWhile isBlank) = (lines s).rdropWhile List.isEmpty := by
  fun_induction lines s with
  | case1 => rfl
  | case2 r ih =>
    refine lines_rdropWhile_append (e := ['\r', '\n']) ?_ (fun _ _ => rfl)
      (ih (fun l hl => h l (List.mem_cons_of_mem [] hl)))
    exact List.all_eq_true.1 rfl
  | case3 c r hcr hc ih =>
    refine lines_rdropWhile_append (e := [c]) ?_ ?_
      (ih (fun l hl => h l (List.mem_cons_of_mem [] hl)))
    · intro d hd
      rw [List.mem_singleton.1 hd]
      exact isBlank_of_endsLine hc
    · rintro r' hr'
      show lines (c :: r') = _
      rw [lines, if_pos hc]
      rintro r'' rfl rfl
      -- A carriage return with its line feed is another end.
      obtain ⟨w, rfl⟩ := hr'
      exact hcr _ rfl rfl
  | case4 c r _ hc hr _ =>
    obtain rfl := lines_eq_nil_iff.1 hr
    have hb : isBlank c = false := h _ List.mem_cons_self c rfl
    rw [List.rdropWhile_singleton, if_neg (Bool.eq_false_iff.1 hb),
      lines_cons_of_not (Bool.eq_false_iff.2 hc)]
    rfl
  | case5 c r _ hc m ms hr ih =>
    rw [hr] at ih
    refine lines_rdropWhile_cons (Bool.eq_false_iff.2 hc) ?_ (ih ?_)
    · rintro rfl
      exact h _ List.mem_cons_self c rfl
    · intro l hl d hd
      rcases List.mem_cons.1 hl with rfl | hl
      · refine h (c :: l) List.mem_cons_self d ?_
        rw [List.getLast?_cons, hd]
        rfl
      · exact h l (List.mem_cons_of_mem _ hl) d hd

/-- **Trimming takes empty lines from both ends**, and nothing else if no line begins or ends with
a blank. -/
theorem lines_trimmed {s : Text} (h : NoBlankEnds (lines s)) :
    lines (trimmed s) = ((lines s).dropWhile List.isEmpty).rdropWhile List.isEmpty := by
  have hfront := lines_dropWhile (fun l hl => (h l hl).1)
  rw [trimmed_eq, lines_rdropWhile, hfront]
  intro l hl
  rw [hfront] at hl
  exact (h l (List.dropWhile_subset _ hl)).2

end Repin.Text
