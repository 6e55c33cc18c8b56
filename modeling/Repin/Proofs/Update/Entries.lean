/-
  Repin.Proofs.Update.Entries
  ───────────────────────────
  **WHAT AN UPDATE DOES TO THE ENTRIES OF A MANIFEST.**

  The pinned tag is replaced wherever it occurs, whatever it stands in there.  An entry
  that lies beside the version, and that no occurrence of the pinned tag overlaps but
  inside its tag, stands where it stood, for any URL:

      git = "U", tag = "X"   becomes   git = "U", tag = "replaced old new X"

  So the tags that change are those that the pinned tag occurs in (`entries_behind_changeManifest`).
  Among them are longer tags: moving `v1.0.1` to `v1.0.2` moves `v1.0.10` to `v1.0.20`
  (`entries_changed_with_pin`).

  The tag of a plain release overlaps no entry but inside its tag or its URL, so for such a
  pin all that is asked of an entry is that the tag is not in its URL (`entries_behind_plainPin`).
-/
import Repin.Proofs.Update.Version

namespace Repin

/-! ## §1. One entry. -/

namespace Entry

variable {old new word url s a tag r : Text}

/-- Every occurrence of `old` in `s` lies before the entry, in its tag or behind it. -/
def Spared (old s a tag r : Text) : Prop :=
  ∀ x y, s = x ++ (old ++ y) →
    x.length + old.length ≤ a.length
      ∨ r.length < y.length ∧ old.length + y.length ≤ tag.length + 1 + r.length
      ∨ old.length + y.length ≤ r.length

/-- Behind the text `a` an entry with the given word, URL and tag is written in `s`, and `r`
behind it. -/
structure Written (word url s a tag r : Text) : Prop where
  keyword : word ∈ keywords
  text : s = a ++ (word ++ (middle url ++ (tag ++ '"' :: r)))
  tag_ne_nil : tag ≠ []
  quote_notMem : '"' ∉ tag

theorem stands_iff_written : Stands url s a tag r ↔ ∃ word, Written word url s a tag r := by
  constructor
  · rintro ⟨t, rfl, h⟩
    obtain ⟨word, hw, rfl, hne, hq⟩ := at?_eq_some_iff.1 h
    exact ⟨word, hw, rfl, hne, hq⟩
  · rintro ⟨word, hw, rfl, hne, hq⟩
    exact ⟨_, rfl, at?_eq_some_iff.2 ⟨word, hw, rfl, hne, hq⟩⟩

theorem Written.append (h : Written word url s a tag r) (z : Text) :
    Written word url (s ++ z) a tag (r ++ z) :=
  ⟨h.keyword, by rw [h.text]; simp, h.tag_ne_nil, h.quote_notMem⟩

theorem Written.behind (h : Written word url s a tag r) (z : Text) :
    Written word url (z ++ s) (z ++ a) tag r :=
  ⟨h.keyword, by rw [h.text]; simp, h.tag_ne_nil, h.quote_notMem⟩

/-- A text with a part that no occurrence overlaps is replaced before and behind the part. -/
theorem replaced_around {u v w : Text} (ho : old ≠ []) (hv : v ≠ [])
    (h : ∀ x y, u ++ (v ++ w) = x ++ (old ++ y) →
      x.length + old.length ≤ u.length ∨ old.length + y.length ≤ w.length) :
    Text.replaced old new (u ++ (v ++ w))
      = Text.replaced old new u ++ (v ++ Text.replaced old new w) := by
  have hpos := List.length_pos_iff.2 ho
  have hlen : ∀ x y, u ++ (v ++ w) = x ++ (old ++ y) →
      u.length + v.length + w.length = x.length + old.length + y.length := by
    intro x y he
    have hl := congrArg List.length he
    simp only [List.length_append] at hl
    omega
  have hu : Text.Apart old u (v ++ w) := by
    intro x y he
    have hone := h x y he
    have hl := hlen x y he
    omega
  have hw : Text.Apart old v w := by
    intro x y he
    have he' : u ++ (v ++ w) = (u ++ x) ++ (old ++ y) := by rw [he, List.append_assoc]
    have hone := h _ y he'
    have hl := hlen _ y he'
    simp only [List.length_append] at hone hl
    omega
  have hno : ¬ old <:+: v := by
    rintro ⟨x, y, rfl⟩
    have he' : u ++ ((x ++ old ++ y) ++ w) = (u ++ x) ++ (old ++ (y ++ w)) := by simp
    have hone := h _ _ he'
    simp only [List.length_append] at hone
    omega
  rw [Text.replaced_append ho hu, Text.replaced_append ho hw, Text.replaced_eq_self ho hno]

/-- **A spared entry is where it was**, with the tag that its tag becomes. -/
theorem Written.replaced (ho : old ≠ []) (hn : new ≠ []) (hq : '"' ∈ new → '"' ∈ old)
    (h : Written word url s a tag r) (hs : Spared old s a tag r) :
    Written word url (Text.replaced old new s) (Text.replaced old new a) (Text.replaced old new tag)
      (Text.replaced old new r) := by
  obtain ⟨hw, rfl, hne, hqt⟩ := h
  have hpos := List.length_pos_iff.2 ho
  have hword : word ++ middle url ≠ [] := by
    intro he
    rw [(List.append_eq_nil_iff.1 he).1] at hw
    exact absurd hw (by decide)
  have hlen : ∀ x y, a ++ ((word ++ middle url) ++ (tag ++ '"' :: r)) = x ++ (old ++ y) →
      x.length + old.length ≤ a.length ∨ old.length + y.length ≤ (tag ++ '"' :: r).length := by
    intro x y he
    have hone := hs x y (by rw [← he, List.append_assoc])
    simp only [List.length_append, List.length_cons]
    omega
  have hquote : ∀ x y, tag ++ (['"'] ++ r) = x ++ (old ++ y) →
      x.length + old.length ≤ tag.length ∨ old.length + y.length ≤ r.length := by
    intro x y he
    have he' : a ++ (word ++ (middle url ++ (tag ++ '"' :: r)))
        = (a ++ (word ++ (middle url ++ x))) ++ (old ++ y) := by
      have hcons : tag ++ '"' :: r = tag ++ (['"'] ++ r) := rfl
      rw [hcons, he]
      simp
    have hone := hs _ y he'
    have hl := congrArg List.length he
    simp only [List.length_append, List.length_singleton] at hone hl
    omega
  refine ⟨hw, ?_, Text.replaced_ne_nil ho hn hne, ?_⟩
  · rw [← List.append_assoc word, replaced_around ho hword hlen]
    show _ ++ (_ ++ Text.replaced old new (tag ++ (['"'] ++ r))) = _
    rw [replaced_around ho (List.cons_ne_nil _ _) hquote]
    simp
  · -- A quote would come from `new`, but then `old` holds one and is not in the tag.
    intro hm
    by_cases hin : old <:+: tag
    · rcases Text.mem_of_mem_replaced ho hm with hm | hm
      · exact hqt hm
      · exact hqt (hin.subset (hq hm))
    · rw [Text.replaced_eq_self ho hin] at hm
      exact hqt hm

/-- An occurrence of `old` lies before a character that it does not hold, or behind it. -/
theorem cases_of_append_cons {q : Char} {u v x y : Text} (ho : old ≠ []) (hq : q ∉ old)
    (he : u ++ q :: v = x ++ (old ++ y)) :
    (∃ z, u = x ++ (old ++ z) ∧ y = z ++ q :: v) ∨ ∃ z, v = z ++ (old ++ y) := by
  rcases (Text.apart_cons hq).cases he with h | ⟨z, rfl, hz⟩
  · exact .inl h
  · right
    cases z with
    | nil =>
      -- Then `old` would begin with the character.
      cases old with
      | nil => exact absurd rfl ho
      | cons d old =>
        rw [List.nil_append, List.cons_append, List.cons.injEq] at hz
        exact absurd (hz.1 ▸ List.mem_cons_self) hq
    | cons d z =>
      rw [List.cons_append, List.cons.injEq] at hz
      exact ⟨z, hz.2⟩

/-- **A tag that ends in a digit and holds no quote spares every entry** whose URL it is not
in. -/
theorem Stands.spared_of_tagLike (ho : TagLike old) (hurl : ¬ old <:+: url)
    (h : Stands url s a tag r) : Spared old s a tag r := by
  obtain ⟨word, hw, rfl, -, -⟩ := stands_iff.1 h
  intro x y he
  have hpos := List.length_pos_iff.2 ho.ne_nil
  -- From quote to quote: the words and the URL hold no occurrence.
  rcases cases_of_append_cons ho.ne_nil ho.quote he with ⟨z, hz, -⟩ | ⟨z₁, he⟩
  · rw [← List.append_assoc x] at hz
    obtain ⟨w, rfl, -⟩ := (ho.endsOutside (isDigit_keyword hw)).append_eq hz.symm
    left
    simp only [List.length_append]
    omega
  rcases cases_of_append_cons ho.ne_nil ho.quote he with ⟨z, rfl, -⟩ | ⟨z₂, he⟩
  · exact absurd ⟨z₁, z, List.append_assoc ..⟩ hurl
  rcases cases_of_append_cons ho.ne_nil ho.quote he with ⟨z, hz, -⟩ | ⟨z₃, he⟩
  · refine absurd ⟨z₂, z, ?_⟩ (Text.EndsOutside.not_infix (ho.endsOutside isDigit_comma))
    rw [hz, List.append_assoc]
  right
  rcases cases_of_append_cons ho.ne_nil ho.quote he with ⟨z, rfl, rfl⟩ | ⟨z, rfl⟩
  · left
    simp only [List.length_append, List.length_cons]
    omega
  · right
    simp only [List.length_append]
    omega

/-- An entry is written in `front` or in `back`.  In the text with `value` between these two,
`a` stands before the entry and `r` behind it. -/
def WrittenBeside (word url front value back a tag r : Text) : Prop :=
  (∃ r', Written word url front a tag r' ∧ r = r' ++ (value ++ back))
    ∨ ∃ a', Written word url back a' tag r ∧ a = front ++ (value ++ a')

theorem WrittenBeside.written {front value back : Text}
    (h : WrittenBeside word url front value back a tag r) :
    Written word url (front ++ (value ++ back)) a tag r := by
  rcases h with ⟨r', h, rfl⟩ | ⟨a', h, rfl⟩
  · exact h.append _
  · exact (h.behind value).behind front

end Entry

/-! ## §2. All entries of a manifest. -/

namespace Update

variable {c : Config} {s : Site} {pin : Pin} {latest : Release} {bump : Bump}
  {change : VersionChange}

/-- The texts before and behind an update: the version is set, then the pin is moved. -/
theorem exists_texts_of_changeManifest
    (h : (Job.on (changeManifest c pin latest bump) s).1 = .ok change)
    (hpin : Version.ofTag c.tagPrefix pin.tag = .ok pin.version)
    (hlatest : Version.ofTag c.tagPrefix latest.name = .ok latest.version) :
    ∃ front old back, s.textAt c.manifestPath = .ok (front ++ (old ++ back))
      ∧ Manifest.around? (front ++ (old ++ back)) = some (front, back)
      ∧ (Job.on (changeManifest c pin latest bump) s).2.textAt c.manifestPath
        = .ok (Text.replaced pin.tag latest.name
            (front ++ (('"' :: (change.new ++ ['"'])) ++ back))) := by
  obtain ⟨t, u, ht, hb, hbehind⟩ := exists_textAt_of_changeManifest h hpin hlatest
  obtain ⟨d, as, old, bs, root, hd, hts, haround, hspelled, -, -, -⟩ := Manifest.exists_of_bumped hb
  have htext : t = Toml.spelled as ++ (old.spelling ++ Toml.spelled bs) := by
    rw [← Toml.Document.text_of_read? hd, Toml.Document.text, hts, Toml.spelled_append]
    rfl
  have hutext : u = Toml.spelled as ++ (('"' :: (change.new ++ ['"'])) ++ Toml.spelled bs) := by
    rw [hspelled, Toml.spelled_append, Toml.spelled_string]
    simp
  rw [htext] at ht haround
  refine ⟨_, _, _, ht, haround, ?_⟩
  rw [hbehind, hutext]

/-- **A spared entry behind the move of the pin.** -/
theorem written_of_spared {word url text a tag r : Text}
    (hpin : Version.ofTag c.tagPrefix pin.tag = .ok pin.version)
    (hlatest : Version.ofTag c.tagPrefix latest.name = .ok latest.version)
    (hs : Entry.Written word url text a tag r) (hspared : Entry.Spared pin.tag text a tag r) :
    Entry.Written word url (Text.replaced pin.tag latest.name text)
        (Text.replaced pin.tag latest.name a) (Text.replaced pin.tag latest.name tag)
        (Text.replaced pin.tag latest.name r)
      ∧ (¬ pin.tag <:+: tag → Text.replaced pin.tag latest.name tag = tag)
      ∧ (tag = pin.tag → Text.replaced pin.tag latest.name tag = latest.name) := by
  obtain ⟨hold, hv⟩ := Version.exists_of_ofTag hpin
  obtain ⟨hnew, hw⟩ := Version.exists_of_ofTag hlatest
  have ho : pin.tag ≠ [] := hold ▸ Text.append_ne_nil_of_isVersion hv c.tagPrefix
  have hn : latest.name ≠ [] := hnew ▸ Text.append_ne_nil_of_isVersion hw c.tagPrefix
  -- The two tags share their prefix, and no version holds a quote.
  have hq : '"' ∈ latest.name → '"' ∈ pin.tag := by
    intro hm
    rw [hnew] at hm
    rw [hold]
    rcases List.mem_append.1 hm with hm | hm
    · exact List.mem_append_left _ hm
    · exact absurd (hw.chars _ hm) (by decide)
  refine ⟨hs.replaced ho hn hq hspared, Text.replaced_eq_self ho, ?_⟩
  rintro rfl
  exact Text.replaced_self ho

/-- **An update moves the pinned tag wherever it occurs, and leaves all else of an entry as it
is.**  An entry beside the version that no occurrence of the pinned tag overlaps, but inside its
tag, stands where it stood.  Its tag changes only if the pinned tag occurs in it. -/
theorem entries_behind_changeManifest
    (h : (Job.on (changeManifest c pin latest bump) s).1 = .ok change)
    (hpin : Version.ofTag c.tagPrefix pin.tag = .ok pin.version)
    (hlatest : Version.ofTag c.tagPrefix latest.name = .ok latest.version) :
    ∃ front old back after, s.textAt c.manifestPath = .ok (front ++ (old ++ back))
      ∧ Manifest.around? (front ++ (old ++ back)) = some (front, back)
      ∧ (Job.on (changeManifest c pin latest bump) s).2.textAt c.manifestPath = .ok after
      ∧ ∀ word url a tag r,
          Entry.WrittenBeside word url front ('"' :: (change.new ++ ['"'])) back a tag r →
          Entry.Spared pin.tag (front ++ (('"' :: (change.new ++ ['"'])) ++ back)) a tag r →
          Entry.Written word url after (Text.replaced pin.tag latest.name a)
              (Text.replaced pin.tag latest.name tag) (Text.replaced pin.tag latest.name r)
            ∧ (¬ pin.tag <:+: tag → Text.replaced pin.tag latest.name tag = tag)
            ∧ (tag = pin.tag → Text.replaced pin.tag latest.name tag = latest.name) := by
  obtain ⟨front, old, back, ht, haround, hafter⟩ := exists_texts_of_changeManifest h hpin hlatest
  refine ⟨front, old, back, _, ht, haround, hafter, ?_⟩
  intro word url a tag r hs hspared
  exact written_of_spared hpin hlatest hs.written hspared

/-- **The pin of a plain release leaves the entries of other tags alone**, but for those whose
URL holds the pinned tag and those that overlap the version of the manifest. -/
theorem entries_behind_plainPin
    (h : (Job.on (changeManifest c pin latest bump) s).1 = .ok change)
    (hpin : Version.ofTag c.tagPrefix pin.tag = .ok pin.version)
    (hlatest : Version.ofTag c.tagPrefix latest.name = .ok latest.version)
    (hplain : pin.version.IsPlain) (hquote : '"' ∉ c.tagPrefix) :
    ∃ front old back after, s.textAt c.manifestPath = .ok (front ++ (old ++ back))
      ∧ Manifest.around? (front ++ (old ++ back)) = some (front, back)
      ∧ (Job.on (changeManifest c pin latest bump) s).2.textAt c.manifestPath = .ok after
      ∧ ∀ word url a tag r,
          Entry.WrittenBeside word url front ('"' :: (change.new ++ ['"'])) back a tag r →
          ¬ pin.tag <:+: url →
          Entry.Written word url after (Text.replaced pin.tag latest.name a)
              (Text.replaced pin.tag latest.name tag) (Text.replaced pin.tag latest.name r)
            ∧ (¬ pin.tag <:+: tag → Text.replaced pin.tag latest.name tag = tag)
            ∧ (tag = pin.tag → Text.replaced pin.tag latest.name tag = latest.name) := by
  obtain ⟨front, old, back, ht, haround, hafter⟩ := exists_texts_of_changeManifest h hpin hlatest
  refine ⟨front, old, back, _, ht, haround, hafter, ?_⟩
  intro word url a tag r hs hurl
  have hlike := Entry.tagLike_of_ofTag hpin hplain hquote
  have hstands := Entry.stands_iff_written.2 ⟨word, hs.written⟩
  exact written_of_spared hpin hlatest hs.written (hstands.spared_of_tagLike hlike hurl)

/-! ## §3. Two manifests. -/

/-- Moves the pin from `v1.0.1` to `v1.0.2`, for a patch. -/
def smallMove : Job VersionChange :=
  changeManifest smallConfig ⟨"v1.0.1", { major := 1, minor := 0, patch := 1 }⟩
    ⟨"v1.0.2", { major := 1, minor := 0, patch := 2 }⟩ .patch

/-- The tag of the first entry of a URL in the manifest. -/
def tagFor (c : Config) (url : Text) (s : Site) : Option Text :=
  (s.textAt c.manifestPath).toOption.bind (fun t => (Entry.first? url t).map Entry.tag)

/-- It pins two dependencies. -/
def sharedManifest : Text :=
  "[package]\nversion = \"1.0.0\"\n[dependencies]\nx = \x7b git = \"u\", tag = \"v1.0.1\" \x7d\n"
    ++ "y = \x7b source = \"w\", tag = \"v2.0.0\" \x7d\n"

def sharedSite : Site := .withManifest sharedManifest

theorem entries_behind_sharedManifest :
    (Job.on smallMove sharedSite).1 = .ok ⟨"1.0.0", "1.0.1"⟩
      ∧ ∃ after word a r,
        (Job.on smallMove sharedSite).2.textAt smallConfig.manifestPath = .ok after
          ∧ Entry.Written word "w" after a "v2.0.0" r := by
  have h : (Job.on smallMove sharedSite).1 = .ok ⟨"1.0.0", "1.0.1"⟩ :=
    eq_ok_of_toOption (by decide +kernel)
  obtain ⟨front, old, back, after, ht, haround, hafter, hentries⟩ :=
    entries_behind_changeManifest h (eq_ok_of_toOption (by decide +kernel))
      (eq_ok_of_toOption (by decide +kernel))
  -- The second entry stands behind the version.
  have hback : (sharedSite.textAt smallConfig.manifestPath).toOption.bind
      (fun t => (Manifest.around? t).bind (fun p => (Entry.first? "w" p.2).map Entry.tag))
      = some "v2.0.0" := by decide +kernel
  rw [ht] at hback
  simp only [Except.toOption, Option.bind_some, haround] at hback
  obtain ⟨e, he, htag⟩ := Option.map_eq_some_iff.1 hback
  obtain ⟨a, r, hs, -, -⟩ := Entry.exists_of_firstFrom? he
  rw [htag] at hs
  obtain ⟨word, hs⟩ := Entry.stands_iff_written.1 hs
  have hbeside : Entry.WrittenBeside word "w" front ('"' :: ("1.0.1".toList ++ ['"'])) back
      (front ++ (('"' :: ("1.0.1".toList ++ ['"'])) ++ a)) "v2.0.0" r := .inr ⟨a, hs, rfl⟩
  have hlike : Entry.TagLike "v1.0.1" :=
    ⟨by decide +kernel, "v1.0.".toList, '1', by decide +kernel, rfl⟩
  have hspared := (Entry.stands_iff_written.2 ⟨word, hbeside.written⟩).spared_of_tagLike hlike
    (by decide +kernel)
  obtain ⟨hwritten, hsame, -⟩ := hentries _ _ _ _ _ hbeside hspared
  rw [hsame (by decide +kernel)] at hwritten
  exact ⟨h, after, word, _, _, hafter, hwritten⟩

/-- It declares a version with an entry in it, pins a longer tag and a URL with a tag. -/
def crowdedManifest : Text :=
  "[package]\nversion = '1.0.0.git = \"q\", tag = \"v2.0.0\"'\n[dependencies]\n"
    ++ "x = \x7b git = \"u\", tag = \"v1.0.1\" \x7d\n"
    ++ "y = \x7b git = \"w\", tag = \"v1.0.10\" \x7d\n"
    ++ "z = \x7b git = \"h/v1.0.1\", tag = \"v2.0.0\" \x7d\n"

def crowdedSite : Site := .withManifest crowdedManifest

/-- The tags of the three entries that do not pin `v1.0.1`. -/
def otherTags (s : Site) : List (Option Text) :=
  [tagFor smallConfig "w" s, tagFor smallConfig "h/v1.0.1" s, tagFor smallConfig "q" s]

/-- **An update can change entries with other tags**: a longer tag is moved with the one that it
begins with, a URL with the tag that it holds, and the version takes an entry in it along. -/
theorem entries_changed_with_pin :
    (Job.on smallMove crowdedSite).1.toOption.map VersionChange.new
        = some "1.0.1".toList
      ∧ otherTags crowdedSite
        = [some "v1.0.10".toList, some "v2.0.0".toList, some "v2.0.0".toList]
      ∧ otherTags (Job.on smallMove crowdedSite).2
        = [some "v1.0.20".toList, none, none] := by
  refine ⟨?_, ?_, ?_⟩
  · decide +kernel
  · decide +kernel
  · decide +kernel

end Update
end Repin
