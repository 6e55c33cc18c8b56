/-
  Repin.Proofs.Text.Segments
  ──────────────────────────
  **THE ONE WAY TO TAKE A TEXT APART.**

  `Parted old s parts` says without a search what lies between the occurrences of `old` in
  `s`: the parts, with `old` between them, are `s`; each part but the last one ends where
  `old` occurs for the first time from its beginning on; in the last one `old` does not
  occur.  For a nonempty `old` one list of parts is like this, the segments:

      Parted old s parts  ↔  parts = segments old s               (`parted_iff`)

  Counting and replacing are both read off the segments, so they agree, also where `old`
  is empty (`segments_empty`), and lengths change with each occurrence by the same amount:

      |replaced old new s| + occurrences old s · |old|
        =  |s| + occurrences old s · |new|                    (`length_replaced`)
-/
import Mathlib.Logic.ExistsUnique
import Repin.Proofs.Text.Replace

namespace Repin.Text

variable {old s a b t : Text} {parts : List Text}

/-! ## §1. What lies between the occurrences. -/

/-- The parts are what lies before, between and behind the occurrences of `old` in `s`. -/
structure Parted (old s : Text) (parts : List Text) : Prop where
  joined : old.intercalate parts = s
  /-- From the beginning of a part on, `old` does not occur before the end of the part. -/
  first : ∀ front a b back, parts = front ++ a :: b :: back →
    ∀ x y, old.intercalate (a :: b :: back) = x ++ (old ++ y) → a.length ≤ x.length
  last : ∃ front a, parts = front ++ [a] ∧ ¬ old <:+: a

theorem Parted.ne_nil (h : Parted old s parts) : parts ≠ [] := by
  obtain ⟨front, a, rfl, -⟩ := h.last
  simp

/-- No occurrence begins before the first one, whatever follows that one. -/
theorem FirstBehind.length_le {x y : Text} (h : FirstBehind old a)
    (he : a ++ (old ++ t) = x ++ (old ++ y)) : a.length ≤ x.length := by
  refine Decidable.byContradiction fun hlt => ?_
  -- An occurrence that begins before the end of `a` lies in `a` with `old` behind it.
  have hx : x ++ old <+: a ++ (old ++ t) := ⟨y, by rw [List.append_assoc, he]⟩
  have ha : a ++ old <+: a ++ (old ++ t) := ⟨t, List.append_assoc a old t⟩
  have hle : (x ++ old).length ≤ (a ++ old).length := by
    simp only [List.length_append]
    omega
  obtain ⟨z, hz⟩ := List.prefix_of_prefix_length_le hx ha hle
  rw [List.append_assoc] at hz
  have hlen := congrArg List.length hz
  rw [h x z hz.symm] at hlen
  simp only [List.length_append, List.length_nil] at hlen
  omega

theorem firstBehind_of_length_le
    (h : ∀ x y, a ++ (old ++ t) = x ++ (old ++ y) → a.length ≤ x.length) : FirstBehind old a := by
  intro x y he
  have hle := h x (y ++ t) (by rw [← List.append_assoc, he]; simp)
  have hlen := congrArg List.length he
  simp only [List.length_append] at hlen
  exact List.length_eq_zero_iff.1 (by omega)

theorem parted_singleton : Parted old s [a] ↔ a = s ∧ ¬ old <:+: a := by
  constructor
  · intro h
    obtain ⟨front, c, he, hc⟩ := h.last
    obtain ⟨rfl, rfl⟩ : front = [] ∧ a = c := by
      cases front with
      | nil => exact ⟨rfl, by simpa using he⟩
      | cons d front => simp at he
    exact ⟨by simpa using h.joined, hc⟩
  · rintro ⟨rfl, hno⟩
    refine ⟨List.intercalate_singleton, ?_, [], a, rfl, hno⟩
    intro front c d back he
    have hlen := congrArg List.length he
    simp only [List.length_append, List.length_cons, List.length_nil] at hlen
    omega

/-- **One part more**: a first occurrence ends it, and the other parts are those of the rest. -/
theorem parted_cons_cons : Parted old s (a :: b :: parts) ↔
    ∃ t, s = a ++ (old ++ t) ∧ FirstBehind old a ∧ Parted old t (b :: parts) := by
  constructor
  · intro h
    have hs := h.joined
    rw [List.intercalate_cons_cons, List.append_assoc] at hs
    refine ⟨_, hs.symm, ?_, rfl, ?_, ?_⟩
    · refine firstBehind_of_length_le (t := old.intercalate (b :: parts)) ?_
      intro x y he
      refine h.first [] a b parts rfl x y ?_
      rw [List.intercalate_cons_cons, List.append_assoc, he]
    · intro front c d back he
      exact h.first (a :: front) c d back (by rw [he, List.cons_append])
    · obtain ⟨front, c, he, hc⟩ := h.last
      cases front with
      | nil => simp at he
      | cons d front =>
        rw [List.cons_append, List.cons.injEq] at he
        exact ⟨front, c, he.2, hc⟩
  · rintro ⟨t, rfl, ha, ht⟩
    have hjoined : old.intercalate (a :: b :: parts) = a ++ (old ++ t) := by
      rw [List.intercalate_cons_cons, List.append_assoc, ht.joined]
    refine ⟨hjoined, ?_, ?_⟩
    · intro front c d back he x y hxy
      cases front with
      | nil =>
        rw [List.nil_append] at he
        cases he
        rw [hjoined] at hxy
        exact ha.length_le hxy
      | cons e front =>
        rw [List.cons_append, List.cons.injEq] at he
        exact ht.first front c d back he.2 x y hxy
    · obtain ⟨front, c, he, hc⟩ := ht.last
      exact ⟨a :: front, c, by rw [he, List.cons_append], hc⟩

theorem parted_segments (ho : old ≠ []) (s : Text) : Parted old s (segments old s) := by
  induction s using segments_induction ho with
  | last s h =>
    rw [segments_of_none ho h]
    exact parted_singleton.2 ⟨rfl, splitFirst?_eq_none_iff.1 h⟩
  | more a b h ih =>
    rw [segments_of_some ho h]
    obtain ⟨c, cs, hc⟩ := List.exists_cons_of_ne_nil (segments_ne_nil old b)
    rw [hc] at ih ⊢
    exact parted_cons_cons.2 ⟨b, rfl, (splitFirst?_eq_some_iff.1 h).2, ih⟩

theorem Parted.eq_segments (ho : old ≠ []) (h : Parted old s parts) : parts = segments old s := by
  induction parts generalizing s with
  | nil => exact absurd rfl h.ne_nil
  | cons a parts ih =>
    cases parts with
    | nil =>
      obtain ⟨rfl, hno⟩ := parted_singleton.1 h
      rw [segments_of_none ho (splitFirst?_eq_none_iff.2 hno)]
    | cons b parts =>
      obtain ⟨t, rfl, ha, ht⟩ := parted_cons_cons.1 h
      rw [segments_of_some ho (splitFirst?_eq_some_iff.2 ⟨rfl, ha⟩), ih ht]

/-- **The segments are the only parts of a text.** -/
theorem parted_iff (ho : old ≠ []) : Parted old s parts ↔ parts = segments old s := by
  refine ⟨fun h => h.eq_segments ho, ?_⟩
  rintro rfl
  exact parted_segments ho s

theorem existsUnique_parted (ho : old ≠ []) (s : Text) : ∃! parts, Parted old s parts :=
  ⟨segments old s, parted_segments ho s, fun _ h => h.eq_segments ho⟩

/-! ## §2. The empty text, and lengths. -/

/-- The empty text occurs before, between and behind the characters. -/
theorem segments_empty (s : Text) : segments [] s = [] :: (s.map (fun c => [c]) ++ [[]]) := by
  rw [segments, if_pos rfl, List.cons_append]

theorem occurrences_empty (s : Text) : occurrences [] s = s.length + 1 := by
  unfold occurrences
  rw [segments_empty]
  simp

theorem replaced_empty (new s : Text) :
    replaced [] new s = new ++ s.flatMap (fun c => c :: new) := by
  have hne : ∀ s : Text, s.map (fun c => [c]) ++ [[]] ≠ [] := by simp
  have hrest : ∀ s : Text,
      new.intercalate (s.map (fun c => [c]) ++ [[]]) = s.flatMap (fun c => c :: new) := by
    intro s
    induction s with
    | nil => exact List.intercalate_singleton
    | cons c s ih =>
      rw [List.map_cons, List.cons_append, List.intercalate_cons_of_ne_nil (hne s), ih]
      simp
  unfold replaced
  rw [segments_empty, List.intercalate_cons_of_ne_nil (hne s), hrest]
  rfl

example : replaced "" "-" "ab" = "-a-b-".toList := by decide +kernel

/-- The lengths of two joined texts with the same parts differ by what stands between the parts. -/
theorem length_intercalate (old new : Text) (h : parts ≠ []) :
    (new.intercalate parts).length + (parts.length - 1) * old.length
      = (old.intercalate parts).length + (parts.length - 1) * new.length := by
  induction parts with
  | nil => exact absurd rfl h
  | cons a parts ih =>
    cases parts with
    | nil => simp
    | cons b parts =>
      have hrest := ih (List.cons_ne_nil b parts)
      simp only [List.intercalate_cons_cons, List.length_append, List.length_cons,
        Nat.add_sub_cancel, Nat.succ_mul] at hrest ⊢
      omega

/-- **Each occurrence changes the length by the same amount.** -/
theorem length_replaced (old new s : Text) :
    (replaced old new s).length + occurrences old s * old.length
      = s.length + occurrences old s * new.length := by
  have hself : old.intercalate (segments old s) = s := by
    by_cases ho : old = []
    · subst ho
      show replaced [] [] s = s
      rw [replaced_empty]
      simp
    · exact intercalate_segments ho s
  have hlen := length_intercalate old new (segments_ne_nil old s)
  rw [hself] at hlen
  exact hlen

end Repin.Text
