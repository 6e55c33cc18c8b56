/-
  Repin.Proofs.Version.Lenient
  ────────────────────────────
  **WHAT THE LENIENT READER TAKES.**

  A text that spells a version is read as that version.  For any other text the reader takes
  another one in its place, and `ReadFor` lists when there is one:

      a            ↦  a.0.0         for a canonical numeral `a`
      a.b          ↦  a.b.0         for canonical numerals `a` and `b`
      x.y.z.rest   ↦  x.y.z         if this spells a version

  The dots of pre-release and build parts count like the others, so a part may be cut in its
  middle; but what is read is always what stands before a dot, or the text itself with
  zeros behind it (`readFor_iff`).  Nothing else is taken, and what was read is read again
  from its own text (`lenient_of_spelling`).
-/
import Repin.Proofs.Tag.Identity
import Repin.Proofs.Version.Next

namespace Repin
namespace Version

variable {s t x y z : Text} {v : Version}

/-! ## §1. Texts that spell versions. -/

/-- The text is that of a version: three canonical numerals, and behind them the parts that a
well-formed version can have. -/
def IsSpelling (s : Text) : Prop := ∃ v : Version, v.WellFormed ∧ v.text = s

theorem read?_eq_some_iff : read? s = some v ↔ v.WellFormed ∧ v.text = s := by
  constructor
  · exact fun h => ⟨wellFormed_of_read? h, text_of_read? h⟩
  · rintro ⟨hv, rfl⟩
    exact read?_text hv

theorem read?_eq_none_iff : read? s = none ↔ ¬ IsSpelling s := by
  unfold IsSpelling
  simp only [← read?_eq_some_iff]
  rw [← Option.isSome_iff_exists, Bool.not_eq_true, Option.isSome_eq_false_iff,
    Option.isNone_iff_eq_none]

theorem major_of_text_eq (hx : '.' ∉ x) (h : v.text = x ++ '.' :: t) :
    x = Text.digits v.major := by
  obtain ⟨z, hz⟩ := exists_text_eq v
  rw [hz] at h
  exact (Text.eq_of_append_cons (Text.dot_notMem_digits v.major) hx h).1.symm

theorem minor_of_text_eq (hx : '.' ∉ x) (hy : '.' ∉ y) (h : v.text = x ++ '.' :: (y ++ '.' :: t)) :
    y = Text.digits v.minor := by
  obtain ⟨z, hz⟩ := exists_text_eq v
  rw [hz] at h
  have hrest := (Text.eq_of_append_cons (Text.dot_notMem_digits v.major) hx h).2
  exact (Text.eq_of_append_cons (Text.dot_notMem_digits v.minor) hy hrest).1.symm

theorem isSpelling_numbers (a b c : Nat) :
    IsSpelling (Text.digits a ++ '.' :: (Text.digits b ++ '.' :: Text.digits c)) :=
  have hplain : IsPlain ⟨a, b, c, [], []⟩ := ⟨rfl, rfl⟩
  ⟨⟨a, b, c, [], []⟩, hplain.wellFormed, hplain.text_eq⟩

/-! ## §2. The first three fields. -/

theorem splitOn_dot (hx : '.' ∉ x) (s : Text) :
    (x ++ '.' :: s).splitOn '.' = x :: s.splitOn '.' :=
  List.splitOn_append_cons_self_of_not_mem hx s

theorem threeFields_one (hx : '.' ∉ x) : threeFields x = x ++ ".0.0" := by
  unfold threeFields
  rw [List.splitOn_eq_singleton hx]
  simp

theorem threeFields_two (hx : '.' ∉ x) (hy : '.' ∉ y) :
    threeFields (x ++ '.' :: y) = x ++ '.' :: (y ++ ".0") := by
  unfold threeFields
  rw [splitOn_dot hx, List.splitOn_eq_singleton hy]
  simp

theorem threeFields_three (hx : '.' ∉ x) (hy : '.' ∉ y) (hz : '.' ∉ z) :
    threeFields (x ++ '.' :: (y ++ '.' :: z)) = x ++ '.' :: (y ++ '.' :: z) := by
  unfold threeFields
  rw [splitOn_dot hx, splitOn_dot hy, List.splitOn_eq_singleton hz]
  simp

theorem threeFields_more (hx : '.' ∉ x) (hy : '.' ∉ y) (hz : '.' ∉ z) (rest : Text) :
    threeFields (x ++ '.' :: (y ++ '.' :: z) ++ '.' :: rest) = x ++ '.' :: (y ++ '.' :: z) := by
  have htext : x ++ '.' :: (y ++ '.' :: z) ++ '.' :: rest
      = x ++ '.' :: (y ++ '.' :: (z ++ '.' :: rest)) := by simp
  unfold threeFields
  rw [htext, splitOn_dot hx, splitOn_dot hy, splitOn_dot hz]
  simp

/-- A text from its number of dots: none, one, two or more. -/
theorem dots_cases (s : Text) : '.' ∉ s
    ∨ (∃ x y, '.' ∉ x ∧ '.' ∉ y ∧ s = x ++ '.' :: y)
    ∨ (∃ x y z, '.' ∉ x ∧ '.' ∉ y ∧ '.' ∉ z ∧ s = x ++ '.' :: (y ++ '.' :: z))
    ∨ ∃ x y z rest, '.' ∉ x ∧ '.' ∉ y ∧ '.' ∉ z
        ∧ s = x ++ '.' :: (y ++ '.' :: z) ++ '.' :: rest := by
  by_cases hs : '.' ∈ s
  · obtain ⟨x, s, rfl, hx⟩ := List.eq_append_cons_of_mem hs
    by_cases hs : '.' ∈ s
    · obtain ⟨y, s, rfl, hy⟩ := List.eq_append_cons_of_mem hs
      by_cases hs : '.' ∈ s
      · obtain ⟨z, s, rfl, hz⟩ := List.eq_append_cons_of_mem hs
        exact .inr (.inr (.inr ⟨x, y, z, s, hx, hy, hz, by simp⟩))
      · exact .inr (.inr (.inl ⟨x, y, s, hx, hy, hs, rfl⟩))
    · exact .inr (.inl ⟨x, s, hx, hs, rfl⟩)
  · exact .inl hs

/-! ## §3. What is read in place of a text. -/

/-- The second text is read in place of the first one. -/
inductive ReadFor : Text → Text → Prop
  /-- One number: the two others are zero. -/
  | one (a : Nat) : ReadFor (Text.digits a) (Text.digits a ++ ".0.0")
  /-- Two numbers: the third one is zero. -/
  | two (a b : Nat) : ReadFor (Text.digits a ++ '.' :: Text.digits b)
      (Text.digits a ++ '.' :: Text.digits b ++ ".0")
  /-- More than three fields: the first three of them. -/
  | more {x y z : Text} (rest : Text) : '.' ∉ x → '.' ∉ y → '.' ∉ z →
      IsSpelling (x ++ '.' :: (y ++ '.' :: z)) →
      ReadFor (x ++ '.' :: (y ++ '.' :: z) ++ '.' :: rest) (x ++ '.' :: (y ++ '.' :: z))

/-- **Another text is read in place of `s` if and only if the first three fields of `s`, with
zeros for those that are missing, are another text and spell a version.** -/
theorem readFor_iff : ReadFor s t ↔ t = threeFields s ∧ t ≠ s ∧ IsSpelling t := by
  have hzero : Text.digits 0 = ['0'] := Text.digits_of_lt (by decide)
  constructor
  · intro h
    cases h with
    | one a =>
      refine ⟨(threeFields_one (Text.dot_notMem_digits a)).symm, by simp, ?_⟩
      have hs := isSpelling_numbers a 0 0
      rwa [hzero] at hs
    | two a b =>
      have ht := threeFields_two (Text.dot_notMem_digits a) (Text.dot_notMem_digits b)
      refine ⟨by rw [ht]; simp, by simp, ?_⟩
      have hs := isSpelling_numbers a b 0
      rw [hzero] at hs
      simpa using hs
    | more rest hx hy hz hs => exact ⟨(threeFields_more hx hy hz rest).symm, by simp, hs⟩
  · rintro ⟨rfl, hne, v, hv, ht⟩
    rcases dots_cases s with hs | ⟨x, y, hx, hy, rfl⟩ | ⟨x, y, z, hx, hy, hz, rfl⟩ |
      ⟨x, y, z, rest, hx, hy, hz, rfl⟩
    · rw [threeFields_one hs] at ht ⊢
      obtain rfl := major_of_text_eq hs ht
      exact .one v.major
    · rw [threeFields_two hx hy] at ht ⊢
      obtain rfl := major_of_text_eq hx ht
      obtain rfl := minor_of_text_eq hx hy ht
      have hread := ReadFor.two v.major v.minor
      simpa using hread
    · exact absurd (threeFields_three hx hy hz) hne
    · rw [threeFields_more hx hy hz] at ht ⊢
      exact .more rest hx hy hz ⟨v, hv, ht⟩

/-! ## §4. The lenient reader. -/

theorem lenient_of_not (h : ¬ IsSpelling s) : lenient s = parse (threeFields s) := by
  unfold lenient
  rw [read?_eq_none_iff.2 h]

theorem parse_eq_ok_iff : parse s = .ok v ↔ v.WellFormed ∧ v.text = s := by
  constructor
  · exact fun h => ⟨wellFormed_of_parse h, text_of_parse h⟩
  · rintro ⟨hv, rfl⟩
    exact parse_text hv

theorem parse_eq_error_iff {r : Refusal} :
    parse s = .error r ↔ r = .notVersion s ∧ ¬ IsSpelling s := by
  rw [← read?_eq_none_iff]
  unfold parse
  cases read? s with
  | none => simp [eq_comm]
  | some v => simp

theorem wellFormed_of_lenient (h : lenient s = .ok v) : v.WellFormed := by
  unfold lenient at h
  split at h
  · next w hw =>
    cases h
    exact wellFormed_of_read? hw
  · exact wellFormed_of_parse h

/-- Where another text is read, it is the one that the first three fields make up. -/
theorem lenient_eq_ok_iff (hs : ¬ IsSpelling s) :
    lenient s = .ok v ↔ v.WellFormed ∧ ReadFor s v.text := by
  rw [lenient_of_not hs, parse_eq_ok_iff, readFor_iff]
  constructor
  · rintro ⟨hv, ht⟩
    exact ⟨hv, ht, fun he => hs ⟨v, hv, he⟩, v, hv, rfl⟩
  · rintro ⟨hv, ht, -⟩
    exact ⟨hv, ht⟩

theorem lenient_eq_error_iff {r : Refusal} : lenient s = .error r
    ↔ r = .notVersion (threeFields s) ∧ ¬ IsSpelling s ∧ ∀ t, ¬ ReadFor s t := by
  by_cases hs : IsSpelling s
  · obtain ⟨v, hv, rfl⟩ := hs
    rw [lenient_text hv]
    exact ⟨nofun, fun h => absurd ⟨v, hv, rfl⟩ h.2.1⟩
  · rw [lenient_of_not hs, parse_eq_error_iff]
    constructor
    · rintro ⟨rfl, hthree⟩
      refine ⟨rfl, hs, fun t ht => ?_⟩
      obtain ⟨rfl, -, ht⟩ := readFor_iff.1 ht
      exact hthree ht
    · rintro ⟨rfl, -, hno⟩
      refine ⟨rfl, fun hthree => hno (threeFields s) (readFor_iff.2 ⟨rfl, ?_, hthree⟩)⟩
      intro he
      exact hs (he ▸ hthree)

/-- **The lenient reader invents nothing.**  A text that spells a version is read as this version.
Any other text is read as the one that is read in its place, and refused if there is none.  What
was read is read again from the text of the version. -/
theorem lenient_of_spelling (s : Text) :
    (IsSpelling s → ∃ v, lenient s = .ok v ∧ v.text = s)
      ∧ (¬ IsSpelling s → ∀ v, lenient s = .ok v ↔ v.WellFormed ∧ ReadFor s v.text)
      ∧ (∀ r, lenient s = .error r
          ↔ r = .notVersion (threeFields s) ∧ ¬ IsSpelling s ∧ ∀ t, ¬ ReadFor s t)
      ∧ ∀ v, lenient s = .ok v → lenient v.text = .ok v := by
  refine ⟨?_, fun hs v => lenient_eq_ok_iff hs, fun r => lenient_eq_error_iff, ?_⟩
  · rintro ⟨v, hv, rfl⟩
    exact ⟨v, lenient_text hv, rfl⟩
  · intro v hv
    exact lenient_text (wellFormed_of_lenient hv)

/-- The dot in the pre-release part of the text is the third one. -/
theorem lenient_of_cutPart :
    ¬ IsSpelling "1.2.3-0.04.a" ∧ ReadFor "1.2.3-0.04.a" "1.2.3-0"
      ∧ lenient "1.2.3-0.04.a" = .ok ⟨1, 2, 3, [.number 0], []⟩
      ∧ lenient "1.2.3-0" = .ok ⟨1, 2, 3, [.number 0], []⟩ := by
  have hs : ¬ IsSpelling "1.2.3-0.04.a" := read?_eq_none_iff.1 (by decide +kernel)
  have hread : read? "1.2.3-0" = some ⟨1, 2, 3, [.number 0], []⟩ := by decide +kernel
  obtain ⟨hv, ht⟩ := read?_eq_some_iff.1 hread
  have hfor : ReadFor "1.2.3-0.04.a" "1.2.3-0" :=
    readFor_iff.2 ⟨by decide +kernel, by decide, ⟨_, hv, ht⟩⟩
  obtain ⟨-, hother, -, hagain⟩ := lenient_of_spelling "1.2.3-0.04.a"
  have hlenient := (hother hs ⟨1, 2, 3, [.number 0], []⟩).2 ⟨hv, ht ▸ hfor⟩
  exact ⟨hs, hfor, hlenient, ht ▸ hagain _ hlenient⟩

end Version
end Repin
