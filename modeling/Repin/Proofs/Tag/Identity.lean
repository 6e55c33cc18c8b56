/-
  Repin.Proofs.Tag.Identity
  ─────────────────────────
  **TAG IDENTITY IS VERSION IDENTITY.**

  Behind one prefix the tags that name versions and the well-formed versions stand for
  each other, one to one:

      ofTag start tag = .ok v  ↔  v.WellFormed ∧ tag = start ++ v.text    (`ofTag_eq_ok_iff`)

  The reader takes no second spelling of a version, so two tags are the same text exactly
  if their versions agree in all five parts, the build part included.  The bump that a move
  calls for is therefore decided by the two versions (`between_of_versions`), and precedence
  has no say in it: a move to an older release, or to one that differs in its build part
  only, calls for a bump like any other.
-/
import Repin.Proofs.Version.Order
import Repin.Proofs.Version.Reading

namespace Repin

/-! ## §1. Tags and versions. -/

namespace Version

theorem wellFormed_of_parse {s : Text} {v : Version} (h : parse s = .ok v) : v.WellFormed := by
  unfold parse at h
  split at h
  · next w hw =>
    cases h
    exact wellFormed_of_read? hw
  · cases h

theorem parse_text {v : Version} (h : v.WellFormed) : parse v.text = .ok v := by
  unfold parse
  rw [read?_text h]

/-- **The tags that name versions are the prefix with the text of a version behind it.** -/
theorem ofTag_eq_ok_iff {start tag : Text} {v : Version} :
    ofTag start tag = .ok v ↔ v.WellFormed ∧ tag = start ++ v.text := by
  constructor
  · intro h
    refine ⟨?_, eq_of_ofTag h⟩
    unfold ofTag at h
    split at h
    · cases h
    · exact wellFormed_of_parse h
  · intro h
    unfold ofTag
    rw [h.2, Text.behind?_append]
    exact parse_text h.1

/-- Two tags with the same prefix are the same if and only if their versions are. -/
theorem tag_eq_iff {start a b : Text} {v w : Version} (ha : ofTag start a = .ok v)
    (hb : ofTag start b = .ok w) : a = b ↔ v = w := by
  constructor
  · intro hab
    rw [hab, hb] at ha
    exact (Except.ok.inj ha).symm
  · intro hvw
    rw [eq_of_ofTag ha, eq_of_ofTag hb, hvw]

theorem unbuilt_ne_of_below {v w : Version} (h : v.Below w) : v.unbuilt ≠ w.unbuilt := by
  intro he
  have hlt := (compare_eq_lt_iff v w).2 h
  rw [(compare_eq_eq_iff v w).2 he] at hlt
  cases hlt

end Version

/-! ## §2. The bump of a move. -/

namespace Bump

variable {pin : Pin} {latest : Release}

theorem between_eq_none_iff : between pin latest = none ↔ pin.tag = latest.name := by
  unfold between
  by_cases h : pin.tag = latest.name
  · rw [if_pos h]
    exact ⟨fun _ => h, fun _ => rfl⟩
  · rw [if_neg h]
    refine ⟨fun hn => ?_, fun ht => absurd ht h⟩
    split at hn <;> cases hn

theorem between_eq_patch_iff : between pin latest = some .patch ↔ pin.tag ≠ latest.name
    ∧ pin.version.major = latest.version.major ∧ pin.version.minor = latest.version.minor := by
  unfold between
  by_cases h : pin.tag = latest.name
  · rw [if_pos h]
    exact ⟨nofun, fun hn => absurd h hn.1⟩
  · rw [if_neg h]
    split
    · next hline => exact ⟨fun _ => ⟨h, hline⟩, fun _ => rfl⟩
    · next hline => exact ⟨nofun, fun hn => absurd hn.2 hline⟩

/-- There is no third bump, so what calls for one and is not on the same line calls for a
minor one. -/
theorem between_eq_minor_iff : between pin latest = some .minor ↔ pin.tag ≠ latest.name
    ∧ ¬ (pin.version.major = latest.version.major
      ∧ pin.version.minor = latest.version.minor) := by
  constructor
  · intro hm
    have hne : pin.tag ≠ latest.name := by
      intro ht
      rw [between_eq_none_iff.2 ht] at hm
      cases hm
    refine ⟨hne, fun hline => ?_⟩
    rw [between_eq_patch_iff.2 ⟨hne, hline⟩] at hm
    cases hm
  · rintro ⟨hne, hline⟩
    cases hb : between pin latest with
    | none => exact absurd (between_eq_none_iff.1 hb) hne
    | some b =>
      cases b with
      | patch => exact absurd (between_eq_patch_iff.1 hb).2 hline
      | minor => rfl

/-- **Behind one prefix tags and versions correspond to each other, and the versions decide
which bump a move calls for**: none if and only if they agree in all five parts, else a patch
bump if and only if major and minor agree. -/
theorem between_of_versions (start : Text) :
    (∀ tag v, Version.ofTag start tag = .ok v → tag = start ++ v.text)
      ∧ (∀ v : Version, v.WellFormed → Version.ofTag start (start ++ v.text) = .ok v)
      ∧ ∀ (pin : Pin) (latest : Release), Version.ofTag start pin.tag = .ok pin.version →
          Version.ofTag start latest.name = .ok latest.version →
          (between pin latest = none ↔ pin.version = latest.version)
          ∧ (between pin latest = some .patch ↔ pin.version ≠ latest.version
              ∧ pin.version.major = latest.version.major
              ∧ pin.version.minor = latest.version.minor)
          ∧ (between pin latest = some .minor ↔ pin.version ≠ latest.version
              ∧ ¬ (pin.version.major = latest.version.major
                ∧ pin.version.minor = latest.version.minor))
          ∧ (pin.version.unbuilt = latest.version.unbuilt →
              pin.version.build ≠ latest.version.build → between pin latest = some .patch)
          ∧ (latest.version.Below pin.version → between pin latest ≠ none) := by
  refine ⟨fun tag v h => Version.eq_of_ofTag h,
    fun v h => Version.ofTag_eq_ok_iff.2 ⟨h, rfl⟩, ?_⟩
  intro pin latest hpin hlatest
  have hsame := Version.tag_eq_iff hpin hlatest
  rw [between_eq_none_iff, between_eq_patch_iff, between_eq_minor_iff, ne_eq, ne_eq, hsame]
  refine ⟨Iff.rfl, Iff.rfl, Iff.rfl, ?_, ?_⟩
  · intro hu hb
    obtain ⟨hmajor, hminor, -, -⟩ := Version.unbuilt_eq_iff.1 hu
    exact ⟨fun hv => hb (congrArg Version.build hv), hmajor, hminor⟩
  · intro hbelow hnone
    have hv := hsame.1 (between_eq_none_iff.1 hnone)
    exact Version.unbuilt_ne_of_below hbelow (congrArg Version.unbuilt hv.symm)

/-- Two versions that differ in one character of their build parts. -/
def dottedBuild : Version := ⟨1, 2, 3, [.word "rc", .number 1], ["a".toList, "b".toList]⟩

def hyphenBuild : Version := ⟨1, 2, 3, [.word "rc", .number 1], ["a-b".toList]⟩

theorem between_builds :
    dottedBuild.WellFormed ∧ hyphenBuild.WellFormed
      ∧ Version.ofTag "cli/v" ("cli/v" ++ dottedBuild.text) = .ok dottedBuild
      ∧ Version.ofTag "cli/v" ("cli/v" ++ hyphenBuild.text) = .ok hyphenBuild
      ∧ between ⟨"cli/v" ++ dottedBuild.text, dottedBuild⟩
          ⟨"cli/v" ++ hyphenBuild.text, hyphenBuild⟩ = some .patch := by
  have hdotted : dottedBuild.WellFormed :=
    Version.wellFormed_of_read? (s := "1.2.3-rc.1+a.b") (by decide)
  have hhyphen : hyphenBuild.WellFormed :=
    Version.wellFormed_of_read? (s := "1.2.3-rc.1+a-b") (by decide)
  obtain ⟨-, hread, hbetween⟩ := between_of_versions "cli/v"
  have hpin := hread dottedBuild hdotted
  have hlatest := hread hyphenBuild hhyphen
  refine ⟨hdotted, hhyphen, hpin, hlatest, ?_⟩
  exact (hbetween ⟨_, dottedBuild⟩ ⟨_, hyphenBuild⟩ hpin hlatest).2.2.2.1 rfl (by decide)

end Bump
end Repin
