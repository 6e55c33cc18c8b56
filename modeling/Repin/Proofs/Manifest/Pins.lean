/-
  Repin.Proofs.Manifest.Pins
  ──────────────────────────
  **ALL PINS OF A MANIFEST, BEFORE AND AFTER A TAG HAS MOVED.**

  `Entry.all url s` is the sequence of the entries of a URL in a text, from left to
  right: each search goes on behind the entry found last.  An entry is given by its
  keyword and its tag.

  When a tag is replaced everywhere in a text, the leftmost entry stays the leftmost one
  (`Leads.replaced`), and what stands behind it is what stood there, with the replacement
  made in it.  So by induction along the sequence no entry is lost, created, merged or
  split:

      all url (replaced old new s)  =  the entries of `all url s`, with `old` replaced in
                                       each tag                       (`all_replaced`)
-/
import Repin.Proofs.Update.Entries

namespace Repin
namespace Entry

variable {url s a a' tag tag' r r' word word' : Text}

/-! ## §1. The leftmost entry. -/

/-- The keyword that a text begins with; empty if there is none. -/
def wordAt (s : Text) : Text := (keywords.find? (fun word => word.isPrefixOf s)).getD []

theorem wordAt_append (h : word ∈ keywords) (t : Text) : wordAt (word ++ t) = word := by
  simp only [keywords, List.mem_cons, List.not_mem_nil, or_false] at h
  rcases h with rfl | rfl <;> rfl

/-- The entry is the leftmost one of its URL. -/
structure Leads (word url s a tag r : Text) : Prop where
  written : Written word url s a tag r
  least : ∀ a' tag' r', Stands url s a' tag' r' → a.length ≤ a'.length

theorem Leads.stands (h : Leads word url s a tag r) : Stands url s a tag r :=
  stands_iff_written.2 ⟨word, h.written⟩

/-- The entry that the search finds, and where it ends. -/
theorem exists_leads {e : Entry} (h : first? url s = some e) :
    ∃ word a r, Leads word url s a e.tag r ∧ e.start = a.length ∧ s.drop e.stop = r := by
  obtain ⟨a, r, hs, ⟨hstart, hstop⟩, hleast⟩ := exists_of_firstFrom? h
  obtain ⟨word, hw⟩ := stands_iff_written.1 hs
  refine ⟨word, a, r, ⟨hw, hleast⟩, by omega, ?_⟩
  -- The rest is determined by its length.
  have hrest : s = (a ++ (word ++ (middle url ++ (e.tag ++ ['"'])))) ++ r := by
    rw [hw.text]
    simp
  have hlen := congrArg List.length hrest
  rw [List.length_append] at hlen
  rw [hrest]
  apply List.drop_left'
  omega

/-- There is one leftmost entry. -/
theorem Leads.unique (h : Leads word url s a tag r) (h' : Leads word' url s a' tag' r') :
    word = word' ∧ a = a' ∧ tag = tag' ∧ r = r' := by
  obtain ⟨t, ht, hat⟩ := h.stands
  obtain ⟨t', ht', hat'⟩ := h'.stands
  have hle := h.least _ _ _ h'.stands
  have hge := h'.least _ _ _ h.stands
  obtain ⟨ha, hrest⟩ := List.append_inj (ht.symm.trans ht') (Nat.le_antisymm hle hge)
  rw [← hrest, hat, Option.some.injEq, Prod.mk.injEq] at hat'
  refine ⟨?_, ha, hat'⟩
  -- Both keywords are read off the text behind `a`.
  have hword : word ++ (middle url ++ (tag ++ '"' :: r))
      = word' ++ (middle url ++ (tag' ++ '"' :: r')) := by
    have h₁ := h.written.text
    rw [h'.written.text, ha] at h₁
    exact (List.append_cancel_left h₁).symm
  calc word = wordAt (word ++ (middle url ++ (tag ++ '"' :: r))) :=
        (wordAt_append h.written.keyword _).symm
    _ = wordAt (word' ++ (middle url ++ (tag' ++ '"' :: r'))) := by rw [hword]
    _ = word' := wordAt_append h'.written.keyword _

theorem Leads.length_lt (h : Leads word url s a tag r) : r.length < s.length := by
  rw [h.written.text]
  simp only [List.length_append, List.length_cons]
  omega

/-! ## §2. All entries. -/

/-- The entries of the URL from left to right, each by its keyword and its tag. -/
def all (url s : Text) : List (Text × Text) :=
  match _h : first? url s with
  | none => []
  | some e => (wordAt (s.drop e.start), e.tag) :: all url (s.drop e.stop)
termination_by s.length
decreasing_by
  obtain ⟨word, a, r, hleads, -, hr⟩ := exists_leads _h
  rw [hr]
  exact hleads.length_lt

theorem all_of_none (h : first? url s = none) : all url s = [] := by
  rw [all]
  split
  · rfl
  · next e he =>
    rw [h] at he
    cases he

theorem all_of_first? {e : Entry} (h : first? url s = some e) :
    all url s = (wordAt (s.drop e.start), e.tag) :: all url (s.drop e.stop) := by
  rw [all]
  split
  · next he =>
    rw [h] at he
    cases he
  · next e' he =>
    rw [h] at he
    cases he
    rfl

theorem all_of_leads (h : Leads word url s a tag r) : all url s = (word, tag) :: all url r := by
  cases hf : first? url s with
  | none => exact absurd h.stands (firstFrom?_eq_none_iff.1 hf _ _ _)
  | some e =>
    obtain ⟨word', a', r', hleads, hstart, hrest⟩ := exists_leads hf
    obtain ⟨rfl, rfl, rfl, rfl⟩ := h.unique hleads
    have hdrop : s.drop e.start = word ++ (middle url ++ (e.tag ++ '"' :: r)) := by
      rw [hstart]
      conv_lhs => rw [h.written.text]
      rw [List.drop_left]
    rw [all_of_first? hf, hrest, hdrop, wordAt_append h.written.keyword]

/-- A text from its end of entries: none more, or one more and then the rest. -/
theorem entries_induction (url : Text) {motive : Text → Prop}
    (last : ∀ s, (∀ a tag r, ¬ Stands url s a tag r) → motive s)
    (more : ∀ word a tag r s, Leads word url s a tag r → motive r → motive s) (s : Text) :
    motive s := by
  induction hn : s.length using Nat.strongRecOn generalizing s with
  | ind n ih =>
    cases hf : first? url s with
    | none => exact last s (firstFrom?_eq_none_iff.1 hf)
    | some e =>
      obtain ⟨word, a, r, hleads, -, -⟩ := exists_leads hf
      exact more word a e.tag r s hleads (ih r.length (hn ▸ hleads.length_lt) r rfl)

/-! ## §3. Replacing a tag. -/

variable {old new : Text}

/-- **The leftmost entry stays the leftmost**, with its keyword. -/
theorem Leads.replaced (ho : TagLike old) (hn : TagLike new) (hold : ¬ old <:+: url)
    (hnew : ¬ new <:+: url) (h : Leads word url s a tag r) :
    Leads word url (Text.replaced old new s) (Text.replaced old new a) (Text.replaced old new tag)
      (Text.replaced old new r) where
  written := h.written.replaced ho.ne_nil hn.ne_nil (fun hq => absurd hq hn.quote)
    (h.stands.spared_of_tagLike ho hold)
  least := by
    intro a' tag' r' hs'
    -- An entry of the new text comes from one of the old text.
    obtain ⟨a₁, tag₁, r₁, hs₁, rfl⟩ := hs'.exists_of_replaced ho hn hnew
    exact h.stands.length_replaced_le ho hs₁ (h.least _ _ _ hs₁)

/-- **No entry is lost, created, merged or split**, and each tag moves with the text. -/
theorem all_replaced (ho : TagLike old) (hn : TagLike new) (hold : ¬ old <:+: url)
    (hnew : ¬ new <:+: url) (s : Text) :
    all url (Text.replaced old new s)
      = (all url s).map (fun p => (p.1, Text.replaced old new p.2)) := by
  induction s using entries_induction url with
  | last s hnone =>
    rw [all_of_none (firstFrom?_eq_none_iff.2 hnone)]
    apply all_of_none
    apply firstFrom?_eq_none_iff.2
    intro a tag r hs
    obtain ⟨a', tag', r', hs', -⟩ := hs.exists_of_replaced ho hn hnew
    exact hnone a' tag' r' hs'
  | more word a tag r s hleads ih =>
    rw [all_of_leads hleads, all_of_leads (hleads.replaced ho hn hold hnew), ih]
    rfl

end Entry

namespace Manifest

variable {c : Config} {s : Site} {text old new : Text} {v w : Version}

/-! ## §4. Replacing a tag in the manifest. -/

/-- What replacing a tag by one with the same prefix leaves in the manifest. -/
theorem textAt_on_replaceAll (ht : s.textAt c.manifestPath = .ok text)
    (ho : Version.ofTag c.tagPrefix old = .ok v) (hn : Version.ofTag c.tagPrefix new = .ok w) :
    (Job.on (replaceAll c old new) s).1 = .ok (Text.occurrences old text)
      ∧ (Job.on (replaceAll c old new) s).2.textAt c.manifestPath
        = .ok (Text.replaced old new text) := by
  obtain ⟨l, b, hl, -⟩ := Site.exists_holds_of_textAt ht
  have hr : '\r' ∉ Text.replaced old new text :=
    Update.return_notMem_replaced_of_ofTag ho hn (Site.return_notMem_of_textAt ht)
  rw [on_replaceAll hl ht]
  refine ⟨rfl, ?_⟩
  rw [Site.textAt_of_holds (hl.put _), Text.unified_eq_self hr]

/-- **Replacing a tag moves the pins and nothing else of them.**  The entries of every URL that
holds neither tag are those from before, one for one and with the same keywords, and the old tag
is replaced in each of their tags.  So a manifest that pinned the old tag pins the new one. -/
theorem pins_behind_replaceAll (ht : s.textAt c.manifestPath = .ok text)
    (ho : Version.ofTag c.tagPrefix old = .ok v) (hv : v.IsPlain) (hqo : '"' ∉ old)
    (hn : Version.ofTag c.tagPrefix new = .ok w) (hw : w.IsPlain) :
    (Job.on (replaceAll c old new) s).1 = .ok (Text.occurrences old text)
      ∧ ∃ after, (Job.on (replaceAll c old new) s).2.textAt c.manifestPath = .ok after
        ∧ (∀ url, ¬ old <:+: url → ¬ new <:+: url →
            Entry.all url after
                = (Entry.all url text).map (fun p => (p.1, Text.replaced old new p.2))
              ∧ ((∀ p ∈ Entry.all url text, p.2 = old) → ∀ p ∈ Entry.all url after, p.2 = new))
        ∧ (¬ old <:+: c.dependencyUrl → ¬ new <:+: c.dependencyUrl →
            (Job.on (readPin c) s).1 = .ok ⟨old, v⟩ →
            (Job.on (readPin c) (Job.on (replaceAll c old new) s).2).1 = .ok ⟨new, w⟩) := by
  have hstart : '"' ∉ c.tagPrefix := by
    intro hm
    rw [Version.eq_of_ofTag ho] at hqo
    exact hqo (List.mem_append_left _ hm)
  have hlo := Entry.tagLike_of_ofTag ho hv hstart
  have hln := Entry.tagLike_of_ofTag hn hw hstart
  obtain ⟨hcount, hafter⟩ := textAt_on_replaceAll ht ho hn
  refine ⟨hcount, _, hafter, ?_, ?_⟩
  · intro url hold hnew
    have hall := Entry.all_replaced hlo hln hold hnew text
    refine ⟨hall, ?_⟩
    intro hsame p hp
    rw [hall] at hp
    obtain ⟨q, hq, rfl⟩ := List.mem_map.1 hp
    show Text.replaced old new q.2 = new
    rw [hsame q hq, Text.replaced_self hlo.ne_nil]
  · intro hold hnew hpin
    rw [Update.on_readPin_manifest, ht] at hpin
    rw [Update.on_readPin_manifest, hafter]
    have hlatest : Version.ofTag c.tagPrefix (Release.mk new w).name
        = .ok (Release.mk new w).version := hn
    exact pinned_replaced hpin hlatest hv hw hold hnew

/-! ## §5. A manifest with two pins. -/

/-- It pins a release twice, once with more behind it, and names the release in a comment. -/
def repeatedManifest : Text :=
  "[dependencies] # v1.0.0\nx = \x7b git = \"u\", tag = \"v1.0.0\" \x7d\n"
    ++ "y = \x7b source = \"u\", tag = \"v1.0.0\" \x7d\n"
    ++ "z = \x7b git = \"u\", tag = \"v1.0.0-rc\" \x7d\n"

/-- The three pins, with the first two at the given tag. -/
def repeatedPins (tag : Text) : List (Text × Text) :=
  [("git", tag), ("source", tag), ("git", tag ++ "-rc".toList)]

theorem pins_behind_repeatedManifest :
    Entry.all "u" repeatedManifest = repeatedPins "v1.0.0"
      ∧ (Job.on (readPin smallConfig) (Site.withManifest repeatedManifest)).1
        = .ok ⟨"v1.0.0", ⟨1, 0, 0, [], []⟩⟩
      ∧ ∃ s after, Job.on (replaceAll smallConfig "v1.0.0" "v1.1.0")
          (Site.withManifest repeatedManifest) = (.ok 4, s)
        ∧ (Job.on (readPin smallConfig) s).1 = .ok ⟨"v1.1.0", ⟨1, 1, 0, [], []⟩⟩
        ∧ s.textAt smallConfig.manifestPath = .ok after
        ∧ Entry.all "u" after = repeatedPins "v1.1.0" := by
  have ht : (Site.withManifest repeatedManifest).textAt smallConfig.manifestPath
      = .ok repeatedManifest := eq_ok_of_toOption (by decide +kernel)
  have hpin : (Job.on (readPin smallConfig) (Site.withManifest repeatedManifest)).1
      = .ok ⟨"v1.0.0", ⟨1, 0, 0, [], []⟩⟩ := eq_ok_of_toOption (by decide +kernel)
  have ho : Version.ofTag smallConfig.tagPrefix "v1.0.0" = .ok ⟨1, 0, 0, [], []⟩ :=
    eq_ok_of_toOption (by decide +kernel)
  have hn : Version.ofTag smallConfig.tagPrefix "v1.1.0" = .ok ⟨1, 1, 0, [], []⟩ :=
    eq_ok_of_toOption (by decide +kernel)
  have hold : ¬ ("v1.0.0" : Text) <:+: "u" := by decide +kernel
  have hnew : ¬ ("v1.1.0" : Text) <:+: "u" := by decide +kernel
  have hbefore : Entry.all "u" repeatedManifest = repeatedPins "v1.0.0" := by decide +kernel
  have hcount : Text.occurrences "v1.0.0" repeatedManifest = 4 := by decide +kernel
  have hmoved : (repeatedPins "v1.0.0").map (fun p => (p.1, Text.replaced "v1.0.0" "v1.1.0" p.2))
      = repeatedPins "v1.1.0" := by decide +kernel
  obtain ⟨hresult, after, hafter, hall, hread⟩ :=
    pins_behind_replaceAll ht ho ⟨rfl, rfl⟩ (by decide +kernel) hn ⟨rfl, rfl⟩
  generalize Job.on (replaceAll smallConfig "v1.0.0" "v1.1.0")
    (Site.withManifest repeatedManifest) = result at hresult hafter hread
  obtain ⟨outcome, s⟩ := result
  rw [hcount] at hresult
  refine ⟨hbefore, hpin, s, after, Prod.ext hresult rfl, hread hold hnew hpin, hafter, ?_⟩
  rw [(hall "u" hold hnew).1, hbefore, hmoved]

end Manifest
end Repin
