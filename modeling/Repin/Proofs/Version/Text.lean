/-
  Repin.Proofs.Version.Text
  ─────────────────────────
  **A VERSION IS WRITTEN AS IT WAS READ.**

  The strict reader accepts one text for each version, the one that `Version.text`
  writes:

      Version.read? s = some v  →  v.text = s            (`text_of_read?`)

  so a tag that names a version is its prefix followed by that text
  (`eq_of_ofTag`).  A text with only the three numbers holds digits and dots, and it
  ends in a digit.
-/
import Repin.Proofs.Text.Numeral
import Repin.Tag.Basic

namespace Repin

/-! ## §1. Parts of a text. -/

theorem Text.cut_eq_none {c : Char} {s a : Text} (h : Text.cut c s = (a, none)) : s = a := by
  induction s generalizing a with
  | nil => cases h; rfl
  | cons x r ih =>
    unfold Text.cut at h
    split at h
    · cases h
    · next hx =>
      rcases hr : Text.cut c r with ⟨b, o⟩
      rw [hr] at h
      cases h
      rw [ih hr]

theorem Text.cut_eq_some {c : Char} {s a r : Text} (h : Text.cut c s = (a, some r)) :
    s = a ++ c :: r := by
  induction s generalizing a with
  | nil => cases h
  | cons x t ih =>
    unfold Text.cut at h
    split at h
    · next hx => cases h; rw [hx]; rfl
    · next hx =>
      rcases hr : Text.cut c t with ⟨b, o⟩
      rw [hr] at h
      cases h
      rw [ih hr]
      rfl

/-- What stands before the first `c` of a text, and behind it, is determined. -/
theorem Text.eq_of_append_cons {c : Char} {x y s t : Text} (hx : c ∉ x) (hy : c ∉ y)
    (h : x ++ c :: s = y ++ c :: t) : x = y ∧ s = t := by
  have hcut := congrArg (Text.cut c) h
  rw [Text.cut_append hx, Text.cut_append hy] at hcut
  cases hcut
  exact ⟨rfl, rfl⟩

theorem Text.dot_notMem_digits (n : Nat) : '.' ∉ digits n := by
  intro hm
  exact absurd (isDigit_of_mem_digits n '.' hm) (by decide)

/-! ## §2. Identifiers. -/

theorem Identifier.text_of_read? {t : Text} {i : Identifier} (h : Identifier.read? t = some i) :
    i.text = t := by
  unfold Identifier.read? at h
  split at h
  · obtain ⟨n, hn, rfl⟩ := Option.map_eq_some_iff.1 h
    exact Text.digits_of_natural? hn
  · split at h
    · cases h; rfl
    · cases h

namespace Version

theorem eq_of_buildField? {t u : Text} (h : buildField? t = some u) : u = t := by
  unfold buildField? at h
  split at h
  · cases h; rfl
  · cases h

/-- Fields that are written as they were read make up the text they were read from. -/
theorem intercalate_of_mapM {α : Type} {field? : Text → Option α} {write : α → Text}
    (hw : ∀ t a, field? t = some a → write a = t) {t : Text} {as : List α}
    (h : (t.splitOn '.').mapM field? = some as) :
    as ≠ [] ∧ ['.'].intercalate (as.map write) = t := by
  have hmap : ∀ (ts : List Text) (bs : List α), ts.mapM field? = some bs →
      bs.map write = ts := by
    intro ts
    induction ts with
    | nil => intro bs hb; cases hb; rfl
    | cons x ts ih =>
      intro bs hb
      rw [List.mapM_cons] at hb
      simp only [Option.bind_eq_bind, Option.bind_eq_some_iff, Option.pure_def,
        Option.some.injEq] at hb
      obtain ⟨a, ha, cs, hcs, rfl⟩ := hb
      rw [List.map_cons, hw x a ha, ih cs hcs]
  have he := hmap _ _ h
  constructor
  · rintro rfl
    exact List.splitOn_ne_nil '.' t he.symm
  · rw [he, List.intercalate_splitOn]

/-! ## §3. Versions. -/

theorem core_of_core? {t : Text} {a b c : Nat} (h : core? t = some (a, b, c)) :
    Text.digits a ++ '.' :: (Text.digits b ++ '.' :: Text.digits c) = t := by
  unfold core? at h
  split at h
  · next x y z hs =>
    simp only [Option.bind_eq_bind, Option.bind_eq_some_iff, Option.pure_def,
      Option.some.injEq, Prod.mk.injEq] at h
    obtain ⟨x', hx, y', hy, z', hz, rfl, rfl, rfl⟩ := h
    rw [Text.digits_of_natural? hx, Text.digits_of_natural? hy, Text.digits_of_natural? hz]
    have ht : ['.'].intercalate (t.splitOn '.') = t := List.intercalate_splitOn '.'
    rw [hs] at ht
    rw [← ht]
    simp
  · cases h

theorem suffix_of_fields? {α : Type} {field? : Text → Option α} {write : α → Text}
    (hw : ∀ t a, field? t = some a → write a = t) (sign : Char) {part : Option Text}
    {as : List α} (h : fields? field? part = some as) :
    suffix sign (if as.isEmpty then none else some (['.'].intercalate (as.map write)))
      = suffix sign part := by
  cases part with
  | none => cases h; rfl
  | some t =>
    obtain ⟨hne, he⟩ := intercalate_of_mapM hw h
    rw [if_neg (by simpa using hne), he]

theorem append_suffix_of_cut {c : Char} {s a : Text} {o : Option Text}
    (h : Text.cut c s = (a, o)) : a ++ suffix c o = s := by
  cases o with
  | none => rw [Text.cut_eq_none h]; exact List.append_nil a
  | some r => rw [Text.cut_eq_some h]; rfl

/-- **A version is written as it was read.** -/
theorem text_of_read? {s : Text} {v : Version} (h : read? s = some v) : v.text = s := by
  rcases hplus : Text.cut '+' s with ⟨front, buildPart⟩
  rcases hminus : Text.cut '-' front with ⟨numbers, prePart⟩
  simp only [read?, hplus, hminus, Option.bind_eq_bind, Option.bind_eq_some_iff,
    Option.pure_def, Option.some.injEq] at h
  obtain ⟨⟨major, minor, patch⟩, hcore, pre, hpre, build, hbuild, rfl⟩ := h
  have hp := suffix_of_fields? (fun _ _ => Identifier.text_of_read?) '-' hpre
  have hid : ∀ t u : Text, buildField? t = some u → id u = t := fun _ _ => eq_of_buildField?
  have hb := suffix_of_fields? hid '+' hbuild
  rw [List.map_id] at hb
  calc Version.text ⟨major, minor, patch, pre, build⟩
      = numbers ++ suffix '-' prePart ++ suffix '+' buildPart := by
        unfold Version.text Version.core preText? buildText?
        rw [core_of_core? hcore, hp, hb]
    _ = front ++ suffix '+' buildPart := by rw [append_suffix_of_cut hminus]
    _ = s := append_suffix_of_cut hplus

/-- The first two dots of a version stand behind its first two numbers. -/
theorem exists_text_eq (v : Version) :
    ∃ z, v.text = Text.digits v.major ++ '.' :: (Text.digits v.minor ++ '.' :: z) := by
  unfold text core
  exact ⟨_, by simp only [List.append_assoc, List.cons_append]; rfl⟩

theorem text_of_parse {s : Text} {v : Version} (h : parse s = .ok v) : v.text = s := by
  unfold parse at h
  split at h
  · next w hw => cases h; exact text_of_read? hw
  · cases h

/-- A tag that names a version is its prefix followed by the text of the version. -/
theorem eq_of_ofTag {start tag : Text} {v : Version} (h : ofTag start tag = .ok v) :
    tag = start ++ v.text := by
  unfold ofTag at h
  split at h
  · cases h
  · next rest hr => rw [Text.behind?_eq_some_iff.1 hr, text_of_parse h]

/-! ## §4. Releases: three numbers and nothing else. -/

/-- The version has no pre-release and no build part. -/
def IsPlain (v : Version) : Prop := v.pre = [] ∧ v.build = []

theorem IsPlain.text_eq {v : Version} (h : v.IsPlain) : v.text = v.core := by
  unfold Version.text preText? buildText?
  rw [h.1, h.2]
  simp [suffix]

theorem isDigit_or_dot_of_mem_core {v : Version} :
    ∀ c ∈ v.core, Text.isDigit c = true ∨ c = '.' := by
  intro c hc
  unfold core at hc
  simp only [List.mem_append, List.mem_cons] at hc
  rcases hc with hc | hc | hc | hc | hc
  · exact .inl (Text.isDigit_of_mem_digits _ c hc)
  · exact .inr hc
  · exact .inl (Text.isDigit_of_mem_digits _ c hc)
  · exact .inr hc
  · exact .inl (Text.isDigit_of_mem_digits _ c hc)

/-- The three numbers end in a digit. -/
theorem core_eq_append_digit (v : Version) :
    ∃ s c, v.core = s ++ [c] ∧ Text.isDigit c = true := by
  have hne := Text.digits_ne_nil v.patch
  refine ⟨Text.digits v.major ++ '.' :: (Text.digits v.minor ++ '.' ::
    (Text.digits v.patch).dropLast), (Text.digits v.patch).getLast hne, ?_, ?_⟩
  · unfold core
    conv_lhs => rw [← List.dropLast_concat_getLast hne]
    simp
  · exact Text.isDigit_of_mem_digits _ _ (List.getLast_mem hne)

theorem isPlain_next (b : Bump) (v : Version) : (b.next v).IsPlain := by
  cases b <;> exact ⟨rfl, rfl⟩

end Version

/-- The text that a bump gives is that of the version behind the one that was read. -/
theorem Bump.exists_of_nextText {b : Bump} {s t : Text} (h : b.nextText s = .ok t) :
    ∃ v, Version.lenient s = .ok v ∧ t = (b.next v).text := by
  unfold Bump.nextText at h
  cases hv : Version.lenient s with
  | error r => rw [hv] at h; cases h
  | ok v => rw [hv] at h; exact ⟨v, rfl, (Except.ok.inj h).symm⟩

/-- A bumped version is written with digits and dots only. -/
theorem Bump.isDigit_or_dot_of_mem_nextText {b : Bump} {s t : Text} (h : b.nextText s = .ok t) :
    ∀ c ∈ t, Text.isDigit c = true ∨ c = '.' := by
  obtain ⟨v, -, rfl⟩ := Bump.exists_of_nextText h
  rw [(Version.isPlain_next b v).text_eq]
  exact Version.isDigit_or_dot_of_mem_core

end Repin
