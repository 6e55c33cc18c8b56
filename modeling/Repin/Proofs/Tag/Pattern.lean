/-
  Repin.Proofs.Tag.Pattern
  ────────────────────────
  **THE GAP BETWEEN THE TAG PATTERN AND VERSIONS.**

  What the pattern accepts behind the prefix has a `Shape`: three numerals, the fields
  of two optional parts and possibly a line feed (`exists_shape`).  A shape is the text
  of a version unless one of three things is in it, each of which the pattern lets pass:

    • a digit of another script in a numeral,
    • a line feed at the end,
    • a pre-release identifier of digits with a leading zero.

  `IsStrict` rules out just these, so a version is read from an accepted name if and
  only if what follows the prefix is strict (`isSome_read?_iff`).  Without suffixes the
  versions among the accepted names are plain releases (`isPlain_of_accepts`).
-/
import Mathlib.Data.List.TakeWhile
import Repin.Proofs.Version.Reading
import Repin.Tag.Pattern

namespace Repin
namespace TagPattern

/-! ## §1. Shapes. -/

/-- A numeral of the pattern: a zero, or decimal digits of any script behind a first ASCII
digit from one to nine. -/
def IsNumeral (t : Text) : Prop :=
  t = ['0'] ∨ ∃ c r, t = c :: r ∧ '1' ≤ c ∧ c ≤ '9' ∧ ∀ d ∈ r, Text.isDecimal d = true

/-- An identifier: at least one character of identifiers. -/
def IsIdentifier (t : Text) : Prop := t ≠ [] ∧ ∀ c ∈ t, Identifier.isChar c = true

/-- The fields of an optional part behind its sign; no fields stand for no part. -/
def partText (sign : Char) (fields : List Text) : Text :=
  Version.suffix sign (if fields.isEmpty then none else some (['.'].intercalate fields))

/-- What a name that the pattern accepts is made of, behind the prefix. -/
structure Shape where
  major : Text
  minor : Text
  patch : Text
  pre : List Text
  build : List Text
  /-- Nothing, or a line feed. -/
  ending : Text

namespace Shape

def text (x : Shape) : Text :=
  x.major ++ '.' :: (x.minor ++ '.' :: x.patch) ++ partText '-' x.pre ++ partText '+' x.build
    ++ x.ending

structure WellFormed (x : Shape) : Prop where
  major : IsNumeral x.major
  minor : IsNumeral x.minor
  patch : IsNumeral x.patch
  pre : ∀ f ∈ x.pre, IsIdentifier f
  build : ∀ f ∈ x.build, IsIdentifier f
  ending : x.ending = [] ∨ x.ending = ['\n']

end Shape

/-! ## §2. What the pattern accepts has a shape. -/

theorem exists_of_numeral? {s r : Text} (h : numeral? s = some r) :
    ∃ t, IsNumeral t ∧ s = t ++ r := by
  unfold numeral? at h
  split at h
  · cases h
    exact ⟨['0'], .inl rfl, rfl⟩
  · next c s hc =>
    split at h
    · next hr =>
      cases h
      refine ⟨c :: s.takeWhile Text.isDecimal, .inr ⟨c, _, rfl, hr.1, hr.2, ?_⟩, ?_⟩
      · intro d hd
        exact List.mem_takeWhile_imp hd
      · rw [List.cons_append, List.takeWhile_append_dropWhile]
    · cases h
  · cases h

theorem exists_of_numerals? {s r : Text} (h : numerals? s = some r) :
    ∃ a b c, IsNumeral a ∧ IsNumeral b ∧ IsNumeral c ∧ s = a ++ '.' :: (b ++ '.' :: c) ++ r := by
  unfold numerals? at h
  simp only [Option.bind_eq_bind, Option.bind_eq_some_iff, Text.behind?_eq_some_iff] at h
  obtain ⟨_, ha, s₁, rfl, _, hb, s₂, rfl, hc⟩ := h
  obtain ⟨a, hna, rfl⟩ := exists_of_numeral? ha
  obtain ⟨b, hnb, rfl⟩ := exists_of_numeral? hb
  obtain ⟨c, hnc, rfl⟩ := exists_of_numeral? hc
  exact ⟨a, b, c, hna, hnb, hnc, by simp⟩

theorem isIdentifier_cons {c : Char} {f : Text} (hc : Identifier.isChar c = true)
    (hf : ∀ d ∈ f, Identifier.isChar d = true) : IsIdentifier (c :: f) :=
  ⟨List.cons_ne_nil c f, List.forall_mem_cons.2 ⟨hc, hf⟩⟩

/-- The run that is skipped ends a field and holds further ones. -/
theorem exists_of_dottedRest (s : Text) : ∃ f fs, s = ['.'].intercalate (f :: fs) ++ dottedRest s
    ∧ (∀ c ∈ f, Identifier.isChar c = true) ∧ ∀ g ∈ fs, IsIdentifier g := by
  induction s using dottedRest.induct with
  | case1 d r hd ih =>
    obtain ⟨f, fs, hr, hf, hfs⟩ := ih
    refine ⟨[], (d :: f) :: fs, ?_, by simp,
      List.forall_mem_cons.2 ⟨isIdentifier_cons hd hf, hfs⟩⟩
    rw [dottedRest, if_pos hd]
    conv_lhs => rw [hr]
    cases fs <;> simp
  | case2 d r hd =>
    refine ⟨[], [], ?_, by simp, by simp⟩
    rw [dottedRest, if_neg hd]
    simp
  | case3 c r hc hd ih =>
    obtain ⟨f, fs, hr, hf, hfs⟩ := ih
    refine ⟨c :: f, fs, ?_, List.forall_mem_cons.2 ⟨hd, hf⟩, hfs⟩
    rw [dottedRest, if_pos hd]
    · conv_lhs => rw [hr]
      cases fs <;> simp
    · exact hc
  | case4 c r hc hd =>
    refine ⟨[], [], ?_, by simp, by simp⟩
    rw [dottedRest, if_neg hd]
    · simp
    · exact hc
  | case5 => exact ⟨[], [], by simp [dottedRest], by simp, by simp⟩

theorem exists_of_part (sign : Char) (s : Text) :
    ∃ fields, s = partText sign fields ++ part sign s ∧ ∀ f ∈ fields, IsIdentifier f := by
  have hnone : ∃ fields, s = partText sign fields ++ s ∧ ∀ f ∈ fields, IsIdentifier f :=
    ⟨[], rfl, by simp⟩
  unfold part
  split
  · next c d r =>
    split
    · next h =>
      obtain ⟨rfl, hd⟩ := h
      obtain ⟨f, fs, hr, hf, hfs⟩ := exists_of_dottedRest r
      refine ⟨(d :: f) :: fs, ?_, List.forall_mem_cons.2 ⟨isIdentifier_cons hd hf, hfs⟩⟩
      conv_lhs => rw [hr]
      unfold partText Version.suffix
      cases fs <;> simp
    · exact hnone
  · exact hnone

/-- **What the pattern accepts has a shape behind the prefix**, one without suffixes where none
are allowed. -/
theorem exists_shape {p : TagPattern} {name : Text} (h : p.accepts name = true) :
    ∃ x : Shape, (x.WellFormed ∧ (p.suffixed = false → x.pre = [] ∧ x.build = []))
      ∧ name = p.start ++ x.text := by
  unfold accepts at h
  split at h
  · cases h
  · next r hr =>
    obtain ⟨s, hs, hn⟩ := Option.bind_eq_some_iff.1 hr
    rw [Text.behind?_eq_some_iff] at hs
    obtain ⟨a, b, c, ha, hb, hc, rfl⟩ := exists_of_numerals? hn
    have hend : ∀ t, atEnd t = true → t = [] ∨ t = ['\n'] := by
      intro t ht
      unfold atEnd at ht
      split at ht
      · exact .inl rfl
      · exact .inr rfl
      · cases ht
    split at h
    · next hp =>
      obtain ⟨pre, hpre, hp'⟩ := exists_of_part '-' r
      obtain ⟨build, hbuild, hb'⟩ := exists_of_part '+' (part '-' r)
      refine ⟨⟨a, b, c, pre, build, part '+' (part '-' r)⟩,
        ⟨⟨ha, hb, hc, hp', hb', hend _ h⟩, fun hno => absurd hp (Bool.eq_false_iff.1 hno)⟩, ?_⟩
      rw [hs]
      show _ = p.start ++ (_ ++ partText '-' pre ++ partText '+' build ++ _)
      conv_lhs => rw [hpre, hbuild]
      simp only [List.append_assoc]
    · refine ⟨⟨a, b, c, [], [], r⟩,
        ⟨⟨ha, hb, hc, by simp, by simp, hend _ h⟩, fun _ => ⟨rfl, rfl⟩⟩, ?_⟩
      rw [hs]
      show _ = p.start ++ (_ ++ [] ++ [] ++ r)
      simp only [List.append_nil]

/-! ## §3. Strict texts. -/

/-- The pre-release fields of a text: what stands behind the first hyphen before the first
plus sign, cut at the dots. -/
def preFields (s : Text) : List Text :=
  match (Text.cut '-' (Text.cut '+' s).1).2 with
  | none => []
  | some t => t.splitOn '.'

/-- What the reader of versions asks for beyond the pattern. -/
structure IsStrict (s : Text) : Prop where
  ascii : ∀ c ∈ s, c.toNat < 128
  ending : s.getLast? ≠ some '\n'
  numbers : ∀ f ∈ preFields s, f.all Text.isDigit = true → Text.isCanonical f = true

theorem preFields_append {numbers : Text} {pre : List Text} (build : Option Text)
    (hplus : '+' ∉ numbers) (hhyphen : '-' ∉ numbers) (hpre : ∀ f ∈ pre, IsIdentifier f) :
    preFields (numbers ++ partText '-' pre ++ Version.suffix '+' build) = pre := by
  have hfront : '+' ∉ numbers ++ partText '-' pre := by
    intro hm
    rcases List.mem_append.1 hm with hm | hm
    · exact hplus hm
    · exact Version.notMem_suffix (by decide) (by decide) (by decide)
        (fun f hf => (hpre f hf).2) hm
  unfold preFields
  rw [Version.cut_append_suffix hfront, partText, Version.cut_append_suffix hhyphen]
  cases pre with
  | nil => rfl
  | cons f fs =>
    refine List.splitOn_intercalate '.' (fun g hg hdot => ?_) (List.cons_ne_nil f fs)
    exact absurd ((hpre g hg).2 '.' hdot) (by decide)

theorem toNat_lt_of_isVersionChar {c : Char} (h : isVersionChar c = true) : c.toNat < 128 := by
  have hle : ∀ d : Char, c ≤ d → c.toNat ≤ d.toNat := fun _ h => h
  have h9 : ('9' : Char).toNat = 57 := rfl
  have hZ : ('Z' : Char).toNat = 90 := rfl
  have hz : ('z' : Char).toNat = 122 := rfl
  unfold isVersionChar Identifier.isChar at h
  simp only [Bool.or_eq_true, Bool.and_eq_true, decide_eq_true_eq] at h
  rcases h with ((((h | h) | h) | rfl) | rfl) | rfl
  · have := hle _ h.2
    omega
  · have := hle _ h.2
    omega
  · have := hle _ h.2
    omega
  · decide
  · decide
  · decide

/-- The pre-release identifiers of a version are written as identifiers. -/
theorem isIdentifier_of_mem_map {v : Version} (h : v.WellFormed) :
    ∀ f ∈ v.pre.map Identifier.text, IsIdentifier f := by
  intro f hf
  obtain ⟨i, hi, rfl⟩ := List.mem_map.1 hf
  refine ⟨?_, Version.isChar_of_mem_text (h.1 i hi)⟩
  cases i with
  | number n => exact Text.digits_ne_nil n
  | word t =>
    obtain ⟨-, c, hc, -⟩ := h.1 _ hi
    exact List.ne_nil_of_mem hc

/-- The text of a version is strict. -/
theorem isStrict_text {v : Version} (h : v.WellFormed) : IsStrict v.text where
  ascii := fun c hc => toNat_lt_of_isVersionChar (Version.isVersionChar_of_mem_text h c hc)
  ending := by
    intro he
    have hc := Version.isVersionChar_of_mem_text h _ (List.mem_of_getLast? he)
    exact absurd hc (by decide)
  numbers := by
    have htext : v.text = v.core ++ partText '-' (v.pre.map Identifier.text)
        ++ Version.suffix '+' v.buildText? := by
      unfold Version.text Version.preText? partText
      rw [List.isEmpty_map]
    rw [htext, preFields_append _ (Version.notMem_core (by decide) (by decide))
      (Version.notMem_core (by decide) (by decide)) (isIdentifier_of_mem_map h)]
    intro f hf hd
    obtain ⟨i, hi, rfl⟩ := List.mem_map.1 hf
    cases i with
    | number n => exact (Text.isCanonical_digits n).1
    | word t =>
      -- A word is not all digits.
      obtain ⟨-, c, hc, hno⟩ := h.1 _ hi
      rw [List.all_eq_true.1 hd c hc] at hno
      cases hno

/-! ## §4. Strict shapes are versions. -/

/-- The first digit of a longer numeral is an ASCII digit. -/
theorem isDigit_of_first {c : Char} (h1 : '1' ≤ c) (h9 : c ≤ '9') : Text.isDigit c = true := by
  have hle : '0' ≤ c := by
    have h : ('1' : Char).toNat ≤ c.toNat := h1
    show ('0' : Char).toNat ≤ c.toNat
    exact Nat.le_trans (by decide) h
  unfold Text.isDigit
  rw [decide_eq_true hle, decide_eq_true h9]
  rfl

/-- An ASCII numeral of the pattern is the numeral of a number. -/
theorem IsNumeral.exists_digits {t : Text} (h : IsNumeral t) (ha : ∀ c ∈ t, c.toNat < 128) :
    ∃ n, Text.digits n = t := by
  rcases h with rfl | ⟨c, r, rfl, h1, h9, hr⟩
  · exact ⟨0, Text.digits_of_lt (by omega)⟩
  · apply Text.exists_digits (List.cons_ne_nil c r)
    · intro d hd
      rcases List.mem_cons.1 hd with rfl | hm
      · exact isDigit_of_first h1 h9
      · have hdec := hr d hm
        unfold Text.isDecimal at hdec
        rwa [if_pos (ha d hd)] at hdec
    · unfold Text.isCanonical
      split
      · next he =>
        rw [List.cons.injEq] at he
        rw [he.1] at h1
        exact absurd h1 (by decide)
      · rfl

/-- Fields without leading zeros are the texts of identifiers. -/
theorem exists_identifiers {pre : List Text} (hpre : ∀ f ∈ pre, IsIdentifier f)
    (hnum : ∀ f ∈ pre, f.all Text.isDigit = true → Text.isCanonical f = true) :
    ∃ is : List Identifier, is.map Identifier.text = pre ∧ ∀ i ∈ is, i.WellFormed := by
  have hone : ∀ f ∈ pre, ∃ i : Identifier, i.WellFormed ∧ i.text = f := by
    intro f hf
    by_cases hd : f.all Text.isDigit = true
    · obtain ⟨n, hn⟩ := Text.exists_digits (hpre f hf).1 (List.all_eq_true.1 hd) (hnum f hf hd)
      exact ⟨.number n, trivial, hn⟩
    · obtain ⟨c, hc, hno⟩ := List.all_eq_false.1 (Bool.eq_false_iff.2 hd)
      exact ⟨.word f, ⟨(hpre f hf).2, c, hc, Bool.eq_false_iff.2 hno⟩, rfl⟩
  induction pre with
  | nil => exact ⟨[], rfl, by simp⟩
  | cons f fs ih =>
    obtain ⟨hf, hfs⟩ := List.forall_mem_cons.1 hone
    obtain ⟨i, hi, rfl⟩ := hf
    obtain ⟨is, rfl, his⟩ := ih (List.forall_mem_cons.1 hpre).2 (List.forall_mem_cons.1 hnum).2 hfs
    exact ⟨i :: is, rfl, List.forall_mem_cons.2 ⟨hi, his⟩⟩

/-- **A strict shape is the text of a version.** -/
theorem Shape.exists_text {x : Shape} (hx : x.WellFormed) (h : IsStrict x.text) :
    ∃ v : Version, v.WellFormed ∧ v.text = x.text := by
  have hend : x.ending = [] := by
    rcases hx.ending with he | he
    · exact he
    · refine absurd ?_ h.ending
      rw [Shape.text, he, List.getLast?_concat]
  obtain ⟨major, hmajor⟩ := hx.major.exists_digits
    (fun c hc => h.ascii c (by simp [Shape.text, hc]))
  obtain ⟨minor, hminor⟩ := hx.minor.exists_digits
    (fun c hc => h.ascii c (by simp [Shape.text, hc]))
  obtain ⟨patch, hpatch⟩ := hx.patch.exists_digits
    (fun c hc => h.ascii c (by simp [Shape.text, hc]))
  have hcore : ∀ pre build, x.major ++ '.' :: (x.minor ++ '.' :: x.patch)
      = Version.core ⟨major, minor, patch, pre, build⟩ := by
    intro pre build
    rw [Version.core, hmajor, hminor, hpatch]
  have hfields : preFields x.text = x.pre := by
    rw [Shape.text, hend, List.append_nil, hcore [] [], partText.eq_def '+']
    exact preFields_append _ (Version.notMem_core (by decide) (by decide))
      (Version.notMem_core (by decide) (by decide)) hx.pre
  obtain ⟨pre, hpre, hwell⟩ := exists_identifiers hx.pre (hfields ▸ h.numbers)
  refine ⟨⟨major, minor, patch, pre, x.build⟩, ⟨hwell, hx.build⟩, ?_⟩
  rw [Shape.text, hend, List.append_nil, hcore pre x.build, ← hpre]
  unfold Version.text Version.preText? Version.buildText? partText
  rw [List.isEmpty_map]

/-- **A version is read from an accepted name if and only if it is strict behind the
prefix.** -/
theorem isSome_read?_iff {p : TagPattern} {rest : Text} (h : p.accepts (p.start ++ rest) = true) :
    (∃ v, Version.read? rest = some v) ↔ IsStrict rest := by
  constructor
  · rintro ⟨v, hv⟩
    rw [← Version.text_of_read? hv]
    exact isStrict_text (Version.wellFormed_of_read? hv)
  · intro hs
    obtain ⟨x, ⟨hx, -⟩, he⟩ := exists_shape h
    obtain rfl := List.append_cancel_left he
    obtain ⟨v, hv, ht⟩ := x.exists_text hx hs
    exact ⟨v, ht ▸ Version.read?_text hv⟩

/-! ## §5. Without suffixes. -/

theorem IsNumeral.isDecimal {t : Text} (h : IsNumeral t) : ∀ c ∈ t, Text.isDecimal c = true := by
  rcases h with rfl | ⟨c, r, rfl, h1, h9, hr⟩
  · intro c hc
    obtain rfl := List.mem_singleton.1 hc
    exact Text.isDecimal_of_isDigit rfl
  · exact List.forall_mem_cons.2 ⟨Text.isDecimal_of_isDigit (isDigit_of_first h1 h9), hr⟩

/-- Without suffixes the pattern accepts digits and dots behind the prefix, and a line feed. -/
theorem mem_of_accepts {p : TagPattern} (hp : p.suffixed = false) {rest : Text}
    (h : p.accepts (p.start ++ rest) = true) :
    ∀ c ∈ rest, Text.isDecimal c = true ∨ c = '.' ∨ c = '\n' := by
  unfold accepts at h
  rw [Text.behind?_append, Option.bind_some, hp] at h
  split at h
  · cases h
  · next r hr =>
    obtain ⟨x, y, z, hx, hy, hz, rfl⟩ := exists_of_numerals? hr
    have hend : ∀ c ∈ r, c = '\n' := by
      intro c hc
      show c = '\n'
      simp only [Bool.false_eq_true, if_false] at h
      unfold atEnd at h
      split at h
      · cases hc
      · exact List.mem_singleton.1 hc
      · cases h
    intro c hc
    simp only [List.mem_append, List.mem_cons] at hc
    rcases hc with (hc | rfl | hc | rfl | hc) | hc
    · exact .inl (hx.isDecimal c hc)
    · exact .inr (.inl rfl)
    · exact .inl (hy.isDecimal c hc)
    · exact .inr (.inl rfl)
    · exact .inl (hz.isDecimal c hc)
    · exact .inr (.inr (hend c hc))

/-- **Without suffixes no version but a plain release is accepted.** -/
theorem isPlain_of_accepts {p : TagPattern} (hp : p.suffixed = false) {v : Version}
    (h : p.accepts (p.start ++ v.text) = true) : v.IsPlain := by
  have hmem := mem_of_accepts hp h
  have hhyphen : '-' ∉ v.text := fun hm => absurd (hmem '-' hm) (by decide)
  have hplus : '+' ∉ v.text := fun hm => absurd (hmem '+' hm) (by decide)
  constructor
  · cases hpre : v.pre with
    | nil => rfl
    | cons i is =>
      refine absurd ?_ hhyphen
      simp [Version.text, Version.preText?, Version.suffix, hpre]
  · cases hbuild : v.build with
    | nil => rfl
    | cons f fs =>
      refine absurd ?_ hplus
      simp [Version.text, Version.buildText?, Version.suffix, hbuild]

end TagPattern
end Repin
