/-
  Repin.Proofs.Version.Shape
  ──────────────────────────
  **THE CHARACTERS OF A VERSION.**

  What the strict reader reads is well formed (`wellFormed_of_read?`), so a version is
  written with the characters of identifiers, dots and plus signs, and it begins with
  digits and a dot.  `IsVersion` keeps of this what is needed to follow a version
  through a text in which it stands.
-/
import Repin.Proofs.Text.Joined
import Repin.Proofs.Version.Text

namespace Repin

/-! ## §1. Well-formed parts. -/

theorem Identifier.wellFormed_of_read? {t : Text} {i : Identifier}
    (h : Identifier.read? t = some i) : i.WellFormed := by
  unfold Identifier.read? at h
  split at h
  · obtain ⟨n, -, rfl⟩ := Option.map_eq_some_iff.1 h
    trivial
  · next hd =>
    split at h
    · next hc =>
      cases h
      refine ⟨List.all_eq_true.1 hc, ?_⟩
      obtain ⟨c, hm, hc⟩ := List.all_eq_false.1 (Bool.eq_false_iff.2 hd)
      exact ⟨c, hm, Bool.eq_false_iff.2 hc⟩
    · cases h

namespace Version

/-- What the fields of a dotted part are read as comes from one of them. -/
theorem exists_of_mem_fields {α : Type} {field? : Text → Option α} {part : Option Text}
    {as : List α} {a : α} (h : fields? field? part = some as) (ha : a ∈ as) :
    ∃ t, field? t = some a := by
  cases part with
  | none =>
    cases h
    cases ha
  | some t =>
    have hmap : ∀ (ts : List Text) (bs : List α), ts.mapM field? = some bs →
        ∀ b ∈ bs, ∃ t, field? t = some b := by
      intro ts
      induction ts with
      | nil =>
        intro bs hb b hm
        cases hb
        cases hm
      | cons x ts ih =>
        intro bs hb b hm
        rw [List.mapM_cons] at hb
        simp only [Option.bind_eq_bind, Option.bind_eq_some_iff, Option.pure_def,
          Option.some.injEq] at hb
        obtain ⟨y, hy, ys, hys, rfl⟩ := hb
        rcases List.mem_cons.1 hm with rfl | hm
        · exact ⟨x, hy⟩
        · exact ih ys hys b hm
    exact hmap _ _ h a ha

/-- The strict reader gives well-formed versions only. -/
theorem wellFormed_of_read? {s : Text} {v : Version} (h : read? s = some v) : v.WellFormed := by
  unfold read? at h
  simp only [Option.bind_eq_bind, Option.bind_eq_some_iff, Option.pure_def,
    Option.some.injEq] at h
  obtain ⟨⟨major, minor, patch⟩, -, pre, hpre, build, hbuild, rfl⟩ := h
  constructor
  · intro i hi
    obtain ⟨t, ht⟩ := exists_of_mem_fields hpre hi
    exact Identifier.wellFormed_of_read? ht
  · intro b hb
    obtain ⟨t, ht⟩ := exists_of_mem_fields hbuild hb
    unfold buildField? at ht
    split at ht
    · next hc =>
      cases ht
      rw [Bool.and_eq_true, Bool.not_eq_true', List.isEmpty_eq_false_iff] at hc
      exact ⟨hc.1, List.all_eq_true.1 hc.2⟩
    · cases ht

end Version

/-! ## §2. The characters of a version. -/

/-- The characters that versions are written with. -/
def isVersionChar (c : Char) : Bool := Identifier.isChar c || c = '.' || c = '+'

theorem isVersionChar_of_isDigit {c : Char} (h : Text.isDigit c = true) :
    isVersionChar c = true := by
  unfold Text.isDigit at h
  unfold isVersionChar Identifier.isChar
  rw [h]
  rfl

theorem isVersionChar_of_isChar {c : Char} (h : Identifier.isChar c = true) :
    isVersionChar c = true := by
  unfold isVersionChar
  rw [h]
  rfl

namespace Version

theorem isVersionChar_of_mem_core {v : Version} : ∀ c ∈ v.core, isVersionChar c = true := by
  intro c hc
  rcases isDigit_or_dot_of_mem_core c hc with hd | rfl
  · exact isVersionChar_of_isDigit hd
  · rfl

/-- The characters of a part behind its sign. -/
theorem isVersionChar_of_mem_suffix {sign : Char} {fields : List Text}
    (hs : isVersionChar sign = true)
    (hf : ∀ f ∈ fields, ∀ c ∈ f, Identifier.isChar c = true) :
    ∀ c ∈ suffix sign (if fields.isEmpty then none else some (['.'].intercalate fields)),
      isVersionChar c = true := by
  intro c hc
  split at hc
  · cases hc
  · rcases List.mem_cons.1 hc with rfl | hc
    · exact hs
    · rcases Text.mem_of_mem_intercalate hc with rfl | ⟨f, hm, hc⟩
      · rfl
      · exact isVersionChar_of_isChar (hf f hm c hc)

theorem isChar_of_mem_text {i : Identifier} (h : i.WellFormed) :
    ∀ c ∈ i.text, Identifier.isChar c = true := by
  intro c hc
  cases i with
  | number n =>
    have hd := Text.isDigit_of_mem_digits n c hc
    unfold Text.isDigit at hd
    unfold Identifier.isChar
    rw [hd]
    rfl
  | word t => exact h.1 c hc

theorem isVersionChar_of_mem_text {v : Version} (h : v.WellFormed) :
    ∀ c ∈ v.text, isVersionChar c = true := by
  intro c hc
  have hpre : ∀ f ∈ v.pre.map Identifier.text, ∀ c ∈ f, Identifier.isChar c = true := by
    intro f hf
    obtain ⟨i, hi, rfl⟩ := List.mem_map.1 hf
    exact isChar_of_mem_text (h.1 i hi)
  have hempty : v.pre.isEmpty = (v.pre.map Identifier.text).isEmpty := List.isEmpty_map.symm
  unfold text preText? buildText? at hc
  rw [hempty] at hc
  rcases List.mem_append.1 hc with hc | hc
  · rcases List.mem_append.1 hc with hc | hc
    · exact isVersionChar_of_mem_core c hc
    · exact isVersionChar_of_mem_suffix rfl hpre c hc
  · exact isVersionChar_of_mem_suffix rfl (fun b hb => (h.2 b hb).2) c hc

end Version

/-! ## §3. Texts of versions. -/

/-- The text begins as a version does, with digits and a dot, and holds characters of
versions only. -/
structure Text.IsVersion (t : Text) : Prop where
  chars : ∀ c ∈ t, isVersionChar c = true
  begins : ∃ ds r, t = ds ++ '.' :: r ∧ ds ≠ [] ∧ ∀ c ∈ ds, Text.isDigit c = true

/-- The text of a well-formed version is one. -/
theorem Version.isVersion_text {v : Version} (h : v.WellFormed) : Text.IsVersion v.text where
  chars := isVersionChar_of_mem_text h
  begins := by
    obtain ⟨z, hz⟩ := exists_text_eq v
    exact ⟨Text.digits v.major, _, hz, Text.digits_ne_nil v.major,
      Text.isDigit_of_mem_digits v.major⟩

/-- A tag that names a version is its prefix followed by the text of one. -/
theorem Version.exists_of_ofTag {start tag : Text} {v : Version} (h : ofTag start tag = .ok v) :
    tag = start ++ v.text ∧ Text.IsVersion v.text := by
  refine ⟨eq_of_ofTag h, isVersion_text ?_⟩
  unfold ofTag at h
  split at h
  · cases h
  · unfold parse at h
    split at h
    · next w hw => cases h; exact wellFormed_of_read? hw
    · cases h

/-- The version that follows is written as one. -/
theorem Bump.isVersion_of_nextText {b : Bump} {s t : Text} (h : b.nextText s = .ok t) :
    Text.IsVersion t := by
  obtain ⟨v, -, rfl⟩ := Bump.exists_of_nextText h
  refine Version.isVersion_text ⟨?_, ?_⟩
  · rw [(Version.isPlain_next b v).1]
    intro i hi
    cases hi
  · rw [(Version.isPlain_next b v).2]
    intro i hi
    cases hi

/-- A text that is read leniently begins with digits, and nothing or a dot follows them. -/
theorem Version.exists_of_lenient {s : Text} {v : Version} (h : lenient s = .ok v) :
    ∃ ds r, s = ds ++ r ∧ ds ≠ [] ∧ (∀ c ∈ ds, Text.isDigit c = true) ∧ ∀ c ∈ r.head?, c = '.' := by
  have hds := Text.isDigit_of_mem_digits v.major
  have hne := Text.digits_ne_nil v.major
  obtain ⟨z, hz⟩ := exists_text_eq v
  unfold lenient at h
  split at h
  · next w hw =>
    cases h
    refine ⟨_, _, (text_of_read? hw).symm.trans hz, hne, hds, ?_⟩
    intro c hc
    exact (Option.some.inj hc).symm
  · -- The first of the dotted fields is the first number.
    have ht := (text_of_parse h).symm.trans hz
    have first : ∀ f fs, '.' ∉ f → s.splitOn '.' = f :: fs → f = Text.digits v.major := by
      intro f fs hf hs
      have hrest : ∃ g gs, (fs ++ [['0'], ['0']]).take 2 = g :: gs := by
        cases fs with
        | nil => exact ⟨_, _, rfl⟩
        | cons g fs => exact ⟨_, _, rfl⟩
      obtain ⟨g, gs, hg⟩ := hrest
      have hthree : threeFields s = f ++ '.' :: ['.'].intercalate (g :: gs) := by
        unfold threeFields
        rw [hs, List.cons_append, List.take_succ_cons, hg, List.intercalate_cons_cons,
          List.append_assoc]
        rfl
      rw [hthree] at ht
      exact (Text.eq_of_append_cons hf (Text.dot_notMem_digits v.major) ht).1
    by_cases hd : '.' ∈ s
    · obtain ⟨f, r, rfl, hf⟩ := List.eq_append_cons_of_mem hd
      have hff := first f _ hf (List.splitOn_append_cons_self_of_not_mem hf r)
      refine ⟨f, '.' :: r, rfl, hff ▸ hne, hff ▸ hds, ?_⟩
      intro c hc
      exact (Option.some.inj hc).symm
    · have hff := first s [] hd (List.splitOn_eq_singleton hd)
      refine ⟨s, [], (List.append_nil s).symm, hff ▸ hne, hff ▸ hds, ?_⟩
      intro c hc
      cases hc

namespace Text

variable {t : Text}

/-- A text of a version begins with a digit. -/
theorem IsVersion.exists_digit (h : t.IsVersion) : ∃ c r, t = c :: r ∧ isDigit c = true := by
  obtain ⟨ds, r, rfl, hne, hd⟩ := h.begins
  cases ds with
  | nil => exact absurd rfl hne
  | cons c ds => exact ⟨c, ds ++ '.' :: r, rfl, hd c List.mem_cons_self⟩

theorem IsVersion.ne_nil (h : t.IsVersion) : t ≠ [] := by
  obtain ⟨c, r, rfl, -⟩ := h.exists_digit
  exact List.cons_ne_nil c r

theorem IsVersion.dot_mem (h : t.IsVersion) : '.' ∈ t := by
  obtain ⟨ds, r, rfl, -, -⟩ := h.begins
  simp

end Text
end Repin
