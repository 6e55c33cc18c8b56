/-
  Repin.Proofs.Manifest.Search
  ────────────────────────────
  **THE PIN OF A MANIFEST IS ITS LEFTMOST ENTRY.**

  `Entry.At` says what it is that an entry stands at a place of a text, one character after
  the other: a keyword, the URL whatever it holds, and a tag that ends at the next quote.
  `Entry.Leftmost` adds that no entry stands before it.

      first? url s = some e  ↔  Leftmost url s e.start e.tag e.stop     (`first?_eq_some_iff`)
      first? url s = none    ↔  no entry stands in `s`                  (`first?_eq_none_iff`)

  A manifest is asked for its leftmost entry only.  If the tag of this one names no version,
  the pin cannot be read, whatever entries follow (`readPin_of_leftmost`).
-/
import Repin.Proofs.Manifest.Bytes
import Repin.Proofs.Update.Convergence

namespace Repin

/-! ## §1. Where an entry stands. -/

namespace Entry

/-- An entry as it is written. -/
def spelling (word url tag : Text) : Text :=
  word ++ (" = \"" ++ url ++ "\", tag = \"" ++ tag ++ "\"")

/-- At the place `k` of the text an entry of the URL is written, and it ends before the place
`stop`. -/
structure At (url s : Text) (k : Nat) (tag : Text) (stop : Nat) : Prop where
  written : ∃ word ∈ keywords, spelling word url tag <+: s.drop k
    ∧ stop = k + (spelling word url tag).length
  tag_ne_nil : tag ≠ []
  quote_notMem : '"' ∉ tag

/-- No entry of the URL stands before this one. -/
structure Leftmost (url s : Text) (k : Nat) (tag : Text) (stop : Nat) : Prop where
  stands : At url s k tag stop
  least : ∀ k' tag' stop', At url s k' tag' stop' → k ≤ k'

variable {url s tag tag' : Text} {k stop stop' : Nat}

theorem spelling_append (word r : Text) :
    spelling word url tag ++ r = word ++ (middle url ++ (tag ++ '"' :: r)) := by
  unfold spelling middle
  simp

theorem spelling_ne_nil (word url tag : Text) : spelling word url tag ≠ [] := by
  unfold spelling
  simp

/-- A place of a text is given by the text before it. -/
theorem at_iff_stands : At url s k tag stop
    ↔ ∃ a r, Stands url s a tag r ∧ a.length = k ∧ stop + r.length = s.length := by
  constructor
  · rintro ⟨⟨word, hw, ⟨r, hr⟩, rfl⟩, hne, hq⟩
    have hk : k < s.length := by
      refine Decidable.byContradiction fun hle => ?_
      rw [List.drop_eq_nil_iff.2 (by omega)] at hr
      exact spelling_ne_nil word url tag (List.append_eq_nil_iff.1 hr).1
    have hlen := congrArg List.length hr
    rw [List.length_append, List.length_drop] at hlen
    rw [spelling_append] at hr
    refine ⟨s.take k, r, ⟨s.drop k, (List.take_append_drop k s).symm, ?_⟩, ?_, ?_⟩
    · exact at?_eq_some_iff.2 ⟨word, hw, hr.symm, hne, hq⟩
    · rw [List.length_take]
      omega
    · omega
  · rintro ⟨a, r, ⟨t, rfl, ht⟩, rfl, hstop⟩
    obtain ⟨word, hw, rfl, hne, hq⟩ := at?_eq_some_iff.1 ht
    rw [← spelling_append] at hstop
    refine ⟨⟨word, hw, ⟨r, ?_⟩, ?_⟩, hne, hq⟩
    · rw [spelling_append, List.drop_left]
    · simp only [List.length_append] at hstop
      omega

/-- What stands at a place is determined, with where it ends. -/
theorem At.unique (h : At url s k tag stop) (h' : At url s k tag' stop') :
    tag = tag' ∧ stop = stop' := by
  obtain ⟨a, r, ⟨t, hs, ht⟩, ha, hstop⟩ := at_iff_stands.1 h
  obtain ⟨a', r', ⟨t', hs', ht'⟩, ha', hstop'⟩ := at_iff_stands.1 h'
  obtain ⟨-, rfl⟩ := List.append_inj (hs.symm.trans hs') (ha.trans ha'.symm)
  rw [ht, Option.some.injEq, Prod.mk.injEq] at ht'
  obtain ⟨rfl, rfl⟩ := ht'
  exact ⟨rfl, by omega⟩

/-! ## §2. The search. -/

theorem first?_eq_none_iff : first? url s = none ↔ ∀ k tag stop, ¬ At url s k tag stop := by
  unfold first?
  rw [firstFrom?_eq_none_iff]
  constructor
  · intro h k tag stop hat
    obtain ⟨a, r, hs, -, -⟩ := at_iff_stands.1 hat
    exact h a tag r hs
  · intro h a tag r hs
    -- The entry ends where `r` begins.
    refine h a.length tag (s.length - r.length) (at_iff_stands.2 ⟨a, r, hs, rfl, ?_⟩)
    obtain ⟨word, -, rfl, -, -⟩ := stands_iff.1 hs
    simp only [List.length_append, List.length_cons]
    omega

theorem leftmost_of_first? {e : Entry} (h : first? url s = some e) :
    Leftmost url s e.start e.tag e.stop := by
  obtain ⟨a, r, hs, ⟨hstart, hstop⟩, hleast⟩ := exists_of_firstFrom? h
  constructor
  · exact at_iff_stands.2 ⟨a, r, hs, by omega, by omega⟩
  · intro k' tag' stop' hat
    obtain ⟨a', r', hs', rfl, -⟩ := at_iff_stands.1 hat
    have hle := hleast a' tag' r' hs'
    omega

/-- **The search finds the leftmost entry**, and nothing else. -/
theorem first?_eq_some_iff {e : Entry} :
    first? url s = some e ↔ Leftmost url s e.start e.tag e.stop := by
  refine ⟨leftmost_of_first?, fun h => ?_⟩
  cases hf : first? url s with
  | none => exact absurd h.stands (first?_eq_none_iff.1 hf _ _ _)
  | some e' =>
    have h' := leftmost_of_first? hf
    -- Neither of the two entries stands before the other.
    have hstart : e'.start = e.start :=
      Nat.le_antisymm (h'.least _ _ _ h.stands) (h.least _ _ _ h'.stands)
    have hat := h'.stands
    rw [hstart] at hat
    obtain ⟨htag, hstop⟩ := hat.unique h.stands
    obtain ⟨tag, start, stop⟩ := e
    obtain ⟨tag', start', stop'⟩ := e'
    simp only at hstart htag hstop
    rw [hstart, htag, hstop]

end Entry

/-! ## §3. The pin. -/

namespace Manifest

open Entry (At Leftmost)

variable {c : Config} {text : Text}

/-- The pin is read from the leftmost entry. -/
theorem pinned_eq_ok_iff {pin : Pin} : pinned c text = .ok pin ↔
    ∃ k stop, Leftmost c.dependencyUrl text k pin.tag stop
      ∧ Version.ofTag c.tagPrefix pin.tag = .ok pin.version := by
  constructor
  · intro h
    obtain ⟨e, he, htag, hv⟩ := exists_first?_of_pinned h
    have hlead := Entry.leftmost_of_first? he
    rw [htag] at hlead
    exact ⟨e.start, e.stop, hlead, hv⟩
  · rintro ⟨k, stop, hlead, hv⟩
    have hfirst : Entry.first? c.dependencyUrl text = some ⟨pin.tag, k, stop⟩ :=
      Entry.first?_eq_some_iff.2 hlead
    exact pinned_of_first? hfirst hv

theorem pinned_eq_missing_iff :
    pinned c text = .error (.pinMissing c.dependencyUrl c.manifestPath.name)
      ↔ ∀ k tag stop, ¬ At c.dependencyUrl text k tag stop := by
  rw [← Entry.first?_eq_none_iff]
  unfold pinned
  cases Entry.first? c.dependencyUrl text with
  | none => exact ⟨fun _ => rfl, fun _ => rfl⟩
  | some e =>
    refine ⟨fun h => ?_, nofun⟩
    dsimp only at h
    split at h <;> cases h

theorem pinned_eq_notRelease_iff {tag : Text} :
    pinned c text = .error (.pinNotRelease tag c.manifestPath.name)
      ↔ ∃ k stop, Leftmost c.dependencyUrl text k tag stop
        ∧ ∀ v, Version.ofTag c.tagPrefix tag ≠ .ok v := by
  constructor
  · intro h
    unfold pinned at h
    split at h
    · cases h
    · next e he =>
      split at h
      · cases h
      · next r hr =>
        cases h
        refine ⟨e.start, e.stop, Entry.leftmost_of_first? he, fun v hv => ?_⟩
        rw [hr] at hv
        cases hv
  · rintro ⟨k, stop, hlead, hno⟩
    have hfirst : Entry.first? c.dependencyUrl text = some ⟨tag, k, stop⟩ :=
      Entry.first?_eq_some_iff.2 hlead
    unfold pinned
    cases hv : Version.ofTag c.tagPrefix tag with
    | ok v => exact absurd hv (hno v)
    | error r => simp only [hfirst, hv]

/-- **The search for a pin is literal, and it is the leftmost entry that is found.**  In every text
and for every URL the search fails only if no entry stands there, and what it finds is the entry
before which none stands.  So a manifest pins the tag of this entry, with the version that the tag
names; it has no pin if there is no entry, and no readable one if this tag names no version. -/
theorem readPin_of_leftmost (text : Text) :
    (∀ url, (Entry.first? url text).isSome = true ↔ ∃ k tag stop, At url text k tag stop)
      ∧ (∀ url e, Entry.first? url text = some e ↔ Leftmost url text e.start e.tag e.stop)
      ∧ ∀ (c : Config) (s : Site), s.textAt c.manifestPath = .ok text →
          (∀ pin, Job.on (readPin c) s = (.ok pin, s)
            ↔ ∃ k stop, Leftmost c.dependencyUrl text k pin.tag stop
              ∧ Version.ofTag c.tagPrefix pin.tag = .ok pin.version)
          ∧ (Job.on (readPin c) s
              = (.error (.pinMissing c.dependencyUrl c.manifestPath.name), s)
            ↔ ∀ k tag stop, ¬ At c.dependencyUrl text k tag stop)
          ∧ ∀ tag, Job.on (readPin c) s = (.error (.pinNotRelease tag c.manifestPath.name), s)
            ↔ ∃ k stop, Leftmost c.dependencyUrl text k tag stop
              ∧ ∀ v, Version.ofTag c.tagPrefix tag ≠ .ok v := by
  refine ⟨?_, fun url e => Entry.first?_eq_some_iff, ?_⟩
  · intro url
    rw [Option.isSome_iff_ne_none, ne_eq, Entry.first?_eq_none_iff]
    simp only [not_forall, not_not]
  · intro c s ht
    have hread : Job.on (readPin c) s = (pinned c text, s) := by
      rw [Update.on_readPin_manifest, ht]
      rfl
    rw [hread]
    simp only [Prod.mk.injEq, and_true]
    exact ⟨fun pin => pinned_eq_ok_iff, pinned_eq_missing_iff, fun tag => pinned_eq_notRelease_iff⟩

/-! ## §4. An address with quotes. -/

/-- An address that looks like a part of an entry. -/
def quotedConfig : Config := { sourceUrl := "a\", tag = \"b", tagPrefix := "v" }

/-- An entry without a tag, one with a tag of two lines, and one that names a release. -/
def quotedManifest : Text :=
  "git = \"a\", tag = \"b\", tag = \"\"\n"
    ++ "source = \"a\", tag = \"b\", tag = \"x\ny\"\n"
    ++ "git = \"a\", tag = \"b\", tag = \"v1.0.0\"\n"

theorem readPin_of_quotedManifest :
    (Site.withManifest quotedManifest).textAt quotedConfig.manifestPath = .ok quotedManifest
      ∧ Leftmost quotedConfig.dependencyUrl quotedManifest 31 "x\ny" 67
      ∧ Job.on (readPin quotedConfig) (Site.withManifest quotedManifest)
        = (.error (.pinNotRelease "x\ny" "Cargo.toml"), Site.withManifest quotedManifest)
      ∧ At quotedConfig.dependencyUrl quotedManifest 68 "v1.0.0" 104
      ∧ Version.ofTag quotedConfig.tagPrefix "v1.0.0" = .ok ⟨1, 0, 0, [], []⟩ := by
  have ht : (Site.withManifest quotedManifest).textAt quotedConfig.manifestPath
      = .ok quotedManifest := eq_ok_of_toOption (by decide +kernel)
  obtain ⟨-, hfind, hread⟩ := readPin_of_leftmost quotedManifest
  have hlead : Leftmost quotedConfig.dependencyUrl quotedManifest 31 "x\ny" 67 :=
    (hfind quotedConfig.dependencyUrl ⟨"x\ny", 31, 67⟩).1 (by decide +kernel)
  have hno : ∀ v, Version.ofTag quotedConfig.tagPrefix "x\ny" ≠ .ok v := by
    intro v hv
    have htag := Version.eq_of_ofTag hv
    cases htag
  have hlater : At quotedConfig.dependencyUrl quotedManifest 68 "v1.0.0" 104 :=
    ⟨⟨"git", by decide, by decide +kernel, by decide +kernel⟩, by decide, by decide⟩
  exact ⟨ht, hlead, ((hread quotedConfig _ ht).2.2 "x\ny").2 ⟨31, 67, hlead, hno⟩, hlater,
    eq_ok_of_toOption (by decide +kernel)⟩

end Manifest
end Repin
