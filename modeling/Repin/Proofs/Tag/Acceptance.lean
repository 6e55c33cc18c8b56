/-
  Repin.Proofs.Tag.Acceptance
  ───────────────────────────
  **THE PATTERN ACCEPTS EVERY RELEASE.**

  Each shape is accepted, so the shapes are just what the pattern accepts behind the
  prefix:

      p.accepts name  ↔  name = p.start ++ x.text  for a well-formed shape `x`
                                                            (`accepts_iff`)

  The functions of the pattern take what they can and never go back.  That loses nothing,
  because what ends a part of a shape can not go on in it: a dot ends a numeral, a plus
  sign or the end of the text ends the identifiers (`Past`).

  The text of a version is a shape, so a tag that names a version is accepted where
  suffixes are allowed, and elsewhere exactly if the version has none.  Together with the
  gap that `IsStrict` describes this compares the two grammars on all texts
  (`accepts_of_versions`).
-/
import Repin.Proofs.Tag.Identity
import Repin.Proofs.Tag.Pattern

namespace Repin
namespace TagPattern

/-! ## §1. What a shape is made of is skipped. -/

theorem numeral?_append {t r : Text} (ht : IsNumeral t)
    (hr : ∀ c ∈ r.head?, Text.isDecimal c = false) : numeral? (t ++ r) = some r := by
  rcases ht with rfl | ⟨c, ds, rfl, h1, h9, hds⟩
  · rfl
  · have hc : c ≠ '0' := by
      intro he
      rw [he] at h1
      exact absurd h1 (by decide)
    have hrest : r.dropWhile Text.isDecimal = r := by
      cases r with
      | nil => rfl
      | cons d r => rw [List.dropWhile_cons, hr d rfl, if_neg Bool.false_ne_true]
    rw [List.cons_append, numeral?]
    · rw [if_pos ⟨h1, h9⟩, List.dropWhile_append_of_pos hds, hrest]
    · exact hc

theorem numerals?_append {a b c r : Text} (ha : IsNumeral a) (hb : IsNumeral b) (hc : IsNumeral c)
    (hr : ∀ d ∈ r.head?, Text.isDecimal d = false) :
    numerals? (a ++ '.' :: (b ++ '.' :: c) ++ r) = some r := by
  have hdot : ∀ s : Text, ∀ d ∈ ('.' :: s).head?, Text.isDecimal d = false := by
    intro s d hd
    cases hd
    decide
  have hbehind : ∀ s : Text, Text.behind? ['.'] ('.' :: s) = some s :=
    fun s => Text.behind?_append ['.'] s
  have htext : a ++ '.' :: (b ++ '.' :: c) ++ r = a ++ '.' :: (b ++ '.' :: (c ++ r)) := by simp
  unfold numerals?
  simp only [htext, numeral?_append ha (hdot _), numeral?_append hb (hdot _), hbehind,
    Option.bind_eq_bind, Option.bind_some]
  exact numeral?_append hc hr

/-- What follows a part of a shape: nothing, or a character that can not go on in it. -/
def Past (r : Text) : Prop := ∀ c ∈ r.head?, Identifier.isChar c = false ∧ c ≠ '.'

theorem dottedRest_eq_self {r : Text} (hr : Past r) : dottedRest r = r := by
  cases r with
  | nil => rfl
  | cons c r =>
    obtain ⟨hc, hdot⟩ := hr c rfl
    rw [dottedRest]
    · rw [if_neg (Bool.eq_false_iff.1 hc)]
    · intro d r' he
      exact absurd he hdot

theorem dottedRest_append {f : Text} (hf : ∀ c ∈ f, Identifier.isChar c = true) (r : Text) :
    dottedRest (f ++ r) = dottedRest r := by
  induction f with
  | nil => rfl
  | cons c f ih =>
    obtain ⟨hc, hf⟩ := List.forall_mem_cons.1 hf
    rw [List.cons_append, dottedRest]
    · rw [if_pos hc, ih hf]
    · intro d r' he
      rw [he] at hc
      exact absurd hc (by decide)

/-- The identifiers of a part are skipped, the first one from anywhere in it. -/
theorem dottedRest_intercalate {f : Text} {fs : List Text} {r : Text}
    (hf : ∀ c ∈ f, Identifier.isChar c = true) (hfs : ∀ g ∈ fs, IsIdentifier g) (hr : Past r) :
    dottedRest (['.'].intercalate (f :: fs) ++ r) = r := by
  induction fs generalizing f with
  | nil =>
    rw [List.intercalate_singleton, dottedRest_append hf, dottedRest_eq_self hr]
  | cons g fs ih =>
    obtain ⟨⟨hne, hchars⟩, htail⟩ := List.forall_mem_cons.1 hfs
    obtain ⟨d, g, rfl⟩ := List.exists_cons_of_ne_nil hne
    obtain ⟨hd, hg⟩ := List.forall_mem_cons.1 hchars
    have htext : ['.'].intercalate (f :: (d :: g) :: fs) ++ r
        = f ++ '.' :: d :: (['.'].intercalate (g :: fs) ++ r) := by
      cases fs <;> simp
    rw [htext, dottedRest_append hf, dottedRest, if_pos hd, ih hg htail]

/-- An optional part is skipped, if it is there. -/
theorem part_append {sign : Char} {fields : List Text} {r : Text}
    (hf : ∀ f ∈ fields, IsIdentifier f) (hr : Past r) (hsign : sign ∉ r.head?) :
    part sign (partText sign fields ++ r) = r := by
  cases fields with
  | nil =>
    show part sign r = r
    unfold part
    split
    · next c d r =>
      have hc : c ≠ sign := by
        intro he
        exact hsign (by rw [he]; rfl)
      rw [if_neg (fun h => hc h.1)]
    · rfl
  | cons f fs =>
    obtain ⟨⟨hne, hchars⟩, htail⟩ := List.forall_mem_cons.1 hf
    obtain ⟨d, f, rfl⟩ := List.exists_cons_of_ne_nil hne
    obtain ⟨hd, hg⟩ := List.forall_mem_cons.1 hchars
    have htext : partText sign ((d :: f) :: fs) ++ r
        = sign :: d :: (['.'].intercalate (f :: fs) ++ r) := by
      unfold partText Version.suffix
      cases fs <;> simp
    rw [htext, part, if_pos ⟨rfl, hd⟩, dottedRest_intercalate hg htail hr]

/-- A part begins with its sign. -/
theorem head?_partText {sign : Char} {fields : List Text} {r : Text} :
    ∀ c ∈ (partText sign fields ++ r).head?, c = sign ∨ c ∈ r.head? := by
  intro c hc
  unfold partText Version.suffix at hc
  cases fields with
  | nil => exact .inr hc
  | cons f fs =>
    cases hc
    exact .inl rfl

/-! ## §2. The pattern accepts the shapes and nothing else. -/

/-! The characters with which the parts of a shape begin. -/

theorem Shape.WellFormed.head?_ending {x : Shape} (hx : x.WellFormed) :
    ∀ c ∈ x.ending.head?, c = '\n' := by
  intro c hc
  rcases hx.ending with he | he
  · rw [he] at hc
    cases hc
  · rw [he] at hc
    cases hc
    rfl

theorem Shape.WellFormed.head?_build {x : Shape} (hx : x.WellFormed) :
    ∀ c ∈ (partText '+' x.build ++ x.ending).head?, c = '+' ∨ c = '\n' := by
  intro c hc
  exact (head?_partText c hc).imp_right (hx.head?_ending c)

theorem Shape.WellFormed.head?_pre {x : Shape} (hx : x.WellFormed) :
    ∀ c ∈ (partText '-' x.pre ++ (partText '+' x.build ++ x.ending)).head?,
      c = '-' ∨ c = '+' ∨ c = '\n' := by
  intro c hc
  exact (head?_partText c hc).imp_right (hx.head?_build c)

/-- Nothing in what ends a shape can go on in its build identifiers. -/
theorem Shape.WellFormed.past_ending {x : Shape} (hx : x.WellFormed) : Past x.ending := by
  intro c hc
  rw [hx.head?_ending c hc]
  decide

theorem Shape.WellFormed.past_build {x : Shape} (hx : x.WellFormed) :
    Past (partText '+' x.build ++ x.ending) := by
  intro c hc
  rcases hx.head?_build c hc with rfl | rfl <;> decide

theorem Shape.WellFormed.atEnd_ending {x : Shape} (hx : x.WellFormed) : atEnd x.ending = true := by
  rcases hx.ending with he | he
  · rw [he]
    rfl
  · rw [he]
    rfl

/-- **Every shape is accepted behind the prefix**, one with suffixes where these are allowed. -/
theorem accepts_shape {p : TagPattern} {x : Shape} (hx : x.WellFormed)
    (hp : p.suffixed = false → x.pre = [] ∧ x.build = []) :
    p.accepts (p.start ++ x.text) = true := by
  have hdecimal : ∀ c ∈ (partText '-' x.pre ++ (partText '+' x.build ++ x.ending)).head?,
      Text.isDecimal c = false := by
    intro c hc
    rcases hx.head?_pre c hc with rfl | rfl | rfl <;> decide
  have htext : x.text = x.major ++ '.' :: (x.minor ++ '.' :: x.patch)
      ++ (partText '-' x.pre ++ (partText '+' x.build ++ x.ending)) := by
    unfold Shape.text
    simp only [List.append_assoc]
  unfold accepts
  rw [Text.behind?_append, Option.bind_some, htext,
    numerals?_append hx.major hx.minor hx.patch hdecimal]
  show atEnd (if p.suffixed = true then _ else _) = true
  cases hs : p.suffixed with
  | false =>
    obtain ⟨hpre, hbuild⟩ := hp hs
    rw [hpre, hbuild]
    exact hx.atEnd_ending
  | true =>
    rw [if_pos rfl,
      part_append hx.pre hx.past_build (fun hm => absurd (hx.head?_build _ hm) (by decide)),
      part_append hx.build hx.past_ending (fun hm => absurd (hx.head?_ending _ hm) (by decide))]
    exact hx.atEnd_ending

/-- **The pattern accepts the shapes behind the prefix and nothing else.** -/
theorem accepts_iff {p : TagPattern} {name : Text} : p.accepts name = true ↔
    ∃ x : Shape, (x.WellFormed ∧ (p.suffixed = false → x.pre = [] ∧ x.build = []))
      ∧ name = p.start ++ x.text := by
  constructor
  · exact exists_shape
  · intro h
    obtain ⟨x, ⟨hx, hp⟩, rfl⟩ := h
    exact accepts_shape hx hp

/-! ## §3. Versions have a shape. -/

theorem isNumeral_digits (n : Nat) : IsNumeral (Text.digits n) := by
  have hne := Text.digits_ne_nil n
  have hdigit := Text.isDigit_of_mem_digits n
  have hcanonical := (Text.isCanonical_digits n).1
  obtain ⟨c, r, he⟩ := List.exists_cons_of_ne_nil hne
  rw [he] at hdigit hcanonical ⊢
  obtain ⟨hc, hr⟩ := List.forall_mem_cons.1 hdigit
  by_cases h0 : c = '0'
  · -- Only the numeral of zero begins with a zero.
    left
    rw [h0] at hcanonical ⊢
    cases r with
    | nil => rfl
    | cons d r => cases hcanonical
  · right
    refine ⟨c, r, rfl, ?_, ?_, fun d hd => Text.isDecimal_of_isDigit (hr d hd)⟩
    · unfold Text.isDigit at hc
      rw [Bool.and_eq_true, decide_eq_true_eq, decide_eq_true_eq] at hc
      have hlow : ('0' : Char).toNat ≤ c.toNat := hc.1
      have hnot : c.toNat ≠ ('0' : Char).toNat := fun h => h0 (Char.toNat_inj.1 h)
      have hone : ('1' : Char).toNat = ('0' : Char).toNat + 1 := rfl
      show ('1' : Char).toNat ≤ c.toNat
      omega
    · unfold Text.isDigit at hc
      rw [Bool.and_eq_true, decide_eq_true_eq, decide_eq_true_eq] at hc
      exact hc.2

/-- The shape of a version. -/
def Shape.ofVersion (v : Version) : Shape :=
  ⟨Text.digits v.major, Text.digits v.minor, Text.digits v.patch, v.pre.map Identifier.text,
    v.build, []⟩

theorem Shape.text_ofVersion (v : Version) : (Shape.ofVersion v).text = v.text := by
  unfold Shape.text Shape.ofVersion Version.text Version.preText? Version.buildText? partText
    Version.core
  rw [List.isEmpty_map, List.append_nil]

theorem Shape.wellFormed_ofVersion {v : Version} (h : v.WellFormed) :
    (Shape.ofVersion v).WellFormed where
  major := isNumeral_digits v.major
  minor := isNumeral_digits v.minor
  patch := isNumeral_digits v.patch
  pre := isIdentifier_of_mem_map h
  build := h.2
  ending := .inl rfl

/-- **A tag that names a version is accepted where suffixes are allowed, and elsewhere exactly if
the version has none.** -/
theorem accepts_text_iff {v : Version} (h : v.WellFormed) (p : TagPattern) :
    p.accepts (p.start ++ v.text) = true ↔ (p.suffixed = false → v.IsPlain) := by
  constructor
  · intro ha hp
    exact isPlain_of_accepts hp ha
  · intro hplain
    rw [← Shape.text_ofVersion]
    apply accepts_shape (Shape.wellFormed_ofVersion h)
    intro hp
    obtain ⟨hpre, hbuild⟩ := hplain hp
    refine ⟨?_, hbuild⟩
    show v.pre.map Identifier.text = []
    rw [hpre]
    rfl

/-! ## §4. The pattern and the reader of versions, on all names. -/

/-- **The pattern drops no release, and the gap between it and the reader of versions is known.**
It accepts every tag that names a version, without suffixes allowed just those of plain releases;
it accepts nothing without the prefix; and an accepted name is one of a version if and only if it
is strict behind the prefix. -/
theorem accepts_of_versions (start name : Text) :
    (∀ v, Version.ofTag start name = .ok v →
        (TagPattern.mk start true).accepts name = true
          ∧ ((TagPattern.mk start false).accepts name = true ↔ v.pre = [] ∧ v.build = []))
      ∧ (∀ suffixed, ¬ start <+: name → (TagPattern.mk start suffixed).accepts name = false)
      ∧ ∀ suffixed rest, name = start ++ rest →
          (TagPattern.mk start suffixed).accepts name = true →
          ((∃ v, Version.ofTag start name = .ok v) ↔ IsStrict rest) := by
  refine ⟨?_, ?_, ?_⟩
  · intro v hv
    obtain ⟨hwell, rfl⟩ := Version.ofTag_eq_ok_iff.1 hv
    refine ⟨?_, ?_⟩
    · exact (accepts_text_iff hwell ⟨start, true⟩).2 (fun h => by cases h)
    · rw [accepts_text_iff hwell ⟨start, false⟩]
      exact ⟨fun h => ⟨(h rfl).1, (h rfl).2⟩, fun h _ => ⟨h.1, h.2⟩⟩
  · intro suffixed hno
    apply Bool.eq_false_iff.2
    intro ha
    obtain ⟨x, -, he⟩ := accepts_iff.1 ha
    exact hno ⟨x.text, he.symm⟩
  · intro suffixed rest he ha
    rw [he] at ha
    have hparse : ∀ v, Version.ofTag start name = .ok v ↔ Version.read? rest = some v := by
      intro v
      rw [he]
      unfold Version.ofTag Version.parse
      rw [Text.behind?_append]
      simp only []
      cases Version.read? rest with
      | none => simp
      | some w => simp
    simp only [hparse]
    exact isSome_read?_iff ha

/-- A prefix of characters that have a meaning of their own in a regular expression. -/
def bracedStart : Text := "(v.*"

theorem accepts_of_bracedStart :
    Version.ofTag bracedStart "(v.*1.2.3-rc.1" = .ok ⟨1, 2, 3, [.word "rc", .number 1], []⟩
      ∧ (TagPattern.mk bracedStart true).accepts "(v.*1.2.3-rc.1" = true
      ∧ (TagPattern.mk bracedStart false).accepts "(v.*1.2.3-rc.1" = false
      ∧ (TagPattern.mk bracedStart true).accepts "(v1.2.3-rc.1" = false
      ∧ ∃ v, Version.ofTag bracedStart "(v.*1.2.3" = .ok v := by
  have hv : Version.ofTag bracedStart "(v.*1.2.3-rc.1"
      = .ok ⟨1, 2, 3, [.word "rc", .number 1], []⟩ := by decide +kernel
  have htext : Version.text ⟨1, 2, 3, [], []⟩ = "1.2.3" := by decide +kernel
  have hbare : IsStrict "1.2.3" := by
    rw [← htext]
    exact isStrict_text (Version.IsPlain.wellFormed ⟨rfl, rfl⟩)
  obtain ⟨hversion, -, -⟩ := accepts_of_versions bracedStart "(v.*1.2.3-rc.1"
  obtain ⟨-, hprefix, -⟩ := accepts_of_versions bracedStart "(v1.2.3-rc.1"
  obtain ⟨-, -, hstrict⟩ := accepts_of_versions bracedStart "(v.*1.2.3"
  obtain ⟨hyes, hplain⟩ := hversion _ hv
  refine ⟨hv, hyes, ?_, hprefix true (by decide +kernel), ?_⟩
  · apply Bool.eq_false_iff.2
    intro ha
    exact absurd (hplain.1 ha).1 (by decide)
  · exact (hstrict false "1.2.3" (by decide +kernel) (by decide +kernel)).2 hbare

end TagPattern
end Repin
