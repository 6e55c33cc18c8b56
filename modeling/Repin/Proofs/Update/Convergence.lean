/-
  Repin.Proofs.Update.Convergence
  ───────────────────────────────
  **ONE UPDATE IS ENOUGH.**

  A run that has moved the pin leaves a manifest that pins the latest release: the
  leftmost entry of the rewritten text is the one of the old pin, with the latest tag
  in it.  The next run on the same listing therefore finds no update, starts no
  command and leaves every file as it is, whatever became of the tests and of the
  publishing of the first run:

      noUpdate_of_run — with tags that name plain releases and do not occur in the URL.
-/
import Repin.Proofs.Listing
import Repin.Proofs.Update.Files

namespace Repin

/-! ## §1. Tags of plain releases. -/

/-- A tag of a plain release ends in a digit. -/
theorem Entry.tagLike_of_ofTag {start tag : Text} {v : Version}
    (h : Version.ofTag start tag = .ok v) (hv : v.IsPlain) (hq : '"' ∉ start) : Entry.TagLike tag := by
  rw [Version.eq_of_ofTag h, hv.text_eq]
  constructor
  · intro hm
    rcases List.mem_append.1 hm with hm | hm
    · exact hq hm
    · rcases Version.isDigit_or_dot_of_mem_core _ hm with hd | hd
      · exact absurd hd (by decide)
      · exact absurd hd (by decide)
  · obtain ⟨s, c, hc, hd⟩ := Version.core_eq_append_digit v
    exact ⟨start ++ s, c, by rw [hc, List.append_assoc], hd⟩

namespace Manifest

theorem pinned_of_first? {c : Config} {s : Text} {e : Entry} {v : Version}
    (h : Entry.first? c.dependencyUrl s = some e) (hv : Version.ofTag c.tagPrefix e.tag = .ok v) :
    pinned c s = .ok ⟨e.tag, v⟩ := by
  unfold pinned
  simp only [h, hv]

/-- **The rewritten manifest pins the latest release.** -/
theorem pinned_replaced {c : Config} {s : Text} {pin : Pin} {latest : Release}
    (h : pinned c s = .ok pin)
    (hlatest : Version.ofTag c.tagPrefix latest.name = .ok latest.version)
    (hp : pin.version.IsPlain) (hl : latest.version.IsPlain)
    (hold : ¬ pin.tag <:+: c.dependencyUrl) (hnew : ¬ latest.name <:+: c.dependencyUrl) :
    pinned c (Text.replaced pin.tag latest.name s) = .ok ⟨latest.name, latest.version⟩ := by
  obtain ⟨e, he, htag, hv⟩ := exists_first?_of_pinned h
  have hq : '"' ∉ c.tagPrefix := by
    intro hm
    refine Entry.quote_notMem_of_first? he ?_
    rw [htag, Version.eq_of_ofTag hv]
    exact List.mem_append_left _ hm
  have ho := Entry.tagLike_of_ofTag hv hp hq
  have hn := Entry.tagLike_of_ofTag hlatest hl hq
  obtain ⟨e', he', htag'⟩ := Entry.exists_first?_replaced ho hn hold hnew he
  rw [htag, Text.replaced_self ho.ne_nil] at htag'
  rw [← htag'] at hlatest
  rw [pinned_of_first? he' hlatest, htag']

/-- The latest tag holds no carriage return if the manifest that pins another one of
the same prefix holds none. -/
theorem return_notMem_name {c : Config} {s : Text} {pin : Pin} {latest : Release}
    (hs : '\r' ∉ s) (h : pinned c s = .ok pin)
    (hlatest : Version.ofTag c.tagPrefix latest.name = .ok latest.version)
    (hl : latest.version.IsPlain) : '\r' ∉ latest.name := by
  obtain ⟨e, he, htag, hv⟩ := exists_first?_of_pinned h
  rw [Version.eq_of_ofTag hlatest, hl.text_eq]
  intro hm
  rcases List.mem_append.1 hm with hm | hm
  · refine hs (Entry.mem_of_mem_tag he ?_)
    rw [htag, Version.eq_of_ofTag hv]
    exact List.mem_append_left _ hm
  · rcases Version.isDigit_or_dot_of_mem_core _ hm with hd | hd
    · exact absurd hd (by decide)
    · exact absurd hd (by decide)

end Manifest

namespace Update

variable {c : Config} {s t : Site} {pin : Pin} {latest : Release} {bump : Bump}

/-! ## §2. The manifest after a run that has moved the pin. -/

/-- What a run has done that did not end early. -/
theorem exists_written_of_run {skipPublish : Bool}
    (hrun : ¬ EndsEarly (Job.on (run c skipPublish) s).1) (hmoves : Moves c s pin latest bump) :
    ∃ l b written, s.tree.Holds s.here c.manifestPath l b ∧ '\r' ∉ written
      ∧ (Job.on (Manifest.bumpVersion c bump) s).2
        = { s with tree := s.tree.put l (.file (Text.encode written)) }
      ∧ (Job.on (run c skipPublish) s).2.tree
        = s.tree.put l (.file (Text.encode (Text.replaced pin.tag latest.name written))) := by
  rcases prepared_cases c s with ⟨f, u, hp, -, hf⟩ | ⟨_, _, u, hp, -, -, -, -⟩ |
    ⟨pin', latest', bump', change, l, b, text, written, u, hp, hm, hl, htext, hb, hu⟩
  · refine absurd ?_ hrun
    rw [(on_run_of_error skipPublish (congrArg Prod.fst hp)).1]
    exact hf
  · refine absurd ?_ hrun
    rw [(on_run_of_none skipPublish (congrArg Prod.fst hp)).1]
    rfl
  · obtain ⟨rfl, rfl, rfl⟩ := hm.unique hmoves
    refine ⟨l, b, written, hl,
      Manifest.return_notMem_bumped (Site.return_notMem_of_textAt htext) hb, ?_, ?_⟩
    · rw [Manifest.on_bumpVersion hl htext hb]
    · rw [(on_run_of_some skipPublish (congrArg Prod.fst hp)).2.2, hp, hu]

/-! ## §3. The next run. -/

/-- A pin of the latest release is no reason for an update. -/
theorem noUpdate_of_pinned (hpin : (Job.on (Manifest.readPin c) t).1 = .ok pin)
    (hlatest : (Job.on (fetchLatest c) t).1 = .ok latest) (heq : pin.tag = latest.name)
    (skipPublish : Bool) :
    (Job.on (run c skipPublish) t).1 = .ok .noUpdateAvailable
      ∧ (Job.on (run c skipPublish) t).2.calls = t.calls
      ∧ (Job.on (run c skipPublish) t).2.tree = t.tree := by
  obtain ⟨u, hu, htree, -⟩ := on_prepared hpin hlatest
  have hnone : Bump.between pin latest = none := by
    unfold Bump.between
    rw [if_pos heq]
  rw [on_decided_none hnone] at hu
  obtain ⟨hr, hc, hk⟩ := on_run_of_none skipPublish (congrArg Prod.fst hu)
  rw [hu] at hk
  exact ⟨hr, hc, hk.trans htree⟩

/-- **A run that has moved the pin is followed by one that has nothing to do.** -/
theorem noUpdate_of_run {skipPublish : Bool}
    (hrun : ¬ EndsEarly (Job.on (run c skipPublish) s).1) (hmoves : Moves c s pin latest bump)
    (hp : pin.version.IsPlain) (hl : latest.version.IsPlain)
    (hold : ¬ pin.tag <:+: c.dependencyUrl) (hnew : ¬ latest.name <:+: c.dependencyUrl)
    (hback : (Job.on (Manifest.readPin c) (Job.on (Manifest.bumpVersion c bump) s).2).1 = .ok pin)
    (hhere : t.here = s.here) (htree : t.tree = (Job.on (run c skipPublish) s).2.tree)
    (hreply : Job.nextReply t.replies = Job.nextReply s.replies) (skipNext : Bool) :
    (Job.on (run c skipNext) t).1 = .ok .noUpdateAvailable
      ∧ (Job.on (run c skipNext) t).2.calls = t.calls
      ∧ (Job.on (run c skipNext) t).2.tree = t.tree := by
  obtain ⟨l, b, written, hholds, hret, hbumped, hfinal⟩ := exists_written_of_run hrun hmoves
  have hfound := hmoves.found
  rw [Listing.on_fetchLatest] at hfound
  have hlatest := Listing.ofTag_of_latestOf hfound
  -- The bumped text reads back the old pin.
  have hpinned : Manifest.pinned c written = .ok pin := by
    obtain ⟨text, htext, hpin⟩ := exists_text_of_readPin hback
    rw [hbumped, Site.textAt_of_holds (hholds.put _), Text.unified_eq_self hret] at htext
    cases htext
    exact hpin
  -- So the rewritten text reads back the latest release.
  have hmoved := Manifest.pinned_replaced hpinned hlatest hp hl hold hnew
  have hpin : (Job.on (Manifest.readPin c) t).1 = .ok ⟨latest.name, latest.version⟩ := by
    have hholds' := hholds.put (Text.encode (Text.replaced pin.tag latest.name written))
    rw [← hfinal, ← htree, ← hhere] at hholds'
    have hne := Manifest.tag_ne_nil_of_pinned hpinned
    have hclean : '\r' ∉ Text.replaced pin.tag latest.name written := by
      intro hm
      rcases Text.mem_of_mem_replaced hne hm with hm | hm
      · exact hret hm
      · exact Manifest.return_notMem_name hret hpinned hlatest hl hm
    rw [on_readPin_manifest, Site.textAt_of_holds hholds', Text.unified_eq_self hclean]
    exact hmoved
  refine noUpdate_of_pinned hpin ?_ rfl skipNext
  rw [Listing.on_fetchLatest, hreply]
  exact hfound

/-! ## §4. A run and the next one. -/

theorem noUpdate_behind_smallSite :
    (Job.on (run smallConfig false) smallSite).1 = .ok .updatedAndPublished
      ∧ (Job.on (run smallConfig false)
          { smallSite with tree := (Job.on (run smallConfig false) smallSite).2.tree }).1
        = .ok .noUpdateAvailable := by
  have hlate : ¬ EndsEarly (Job.on (run smallConfig false) smallSite).1 := by
    rw [published_of_smallSite]
    exact nofun
  have hback : (Job.on (Manifest.readPin smallConfig)
      (Job.on (Manifest.bumpVersion smallConfig .minor) smallSite).2).1
      = .ok ⟨"v1.0.0", { major := 1, minor := 0, patch := 0 }⟩ :=
    eq_ok_of_toOption (by decide +kernel)
  refine ⟨published_of_smallSite, ?_⟩
  generalize htree : (Job.on (run smallConfig false) smallSite).2.tree = tree
  exact (noUpdate_of_run hlate moves_of_smallSite ⟨rfl, rfl⟩ ⟨rfl, rfl⟩ (by decide +kernel)
    (by decide +kernel) hback (t := { smallSite with tree }) rfl htree.symm rfl false).1

end Update
end Repin
