/-
  Repin.Proofs.Update.Findings
  ────────────────────────────
  **THE FILES, THE LATEST RELEASE AND THE EXITS DECIDE A RUN.**

  Reading the pin and changing the manifest depend on the files and on nothing else of a
  site.  So on two sites with the same files and the same latest release a run makes the
  same changes, and with the same exits it also comes to the same result:

    • `on_prepared_congr` — the stage before the tests,
    • `on_run_congr`, `tree_of_run` — the whole run,
    • `run_of_perm` — without suffixes a run does not depend on the order in which the host
      lists its tags.
-/
import Repin.Proofs.Listing.Permuted
import Repin.Proofs.Update.Convergence

namespace Repin
namespace Update

variable {c : Config} {s t : Site}

/-! ## §1. What depends on the files only. -/

theorem dependsOnFiles_readPin (c : Config) : Job.DependsOnFiles (Manifest.readPin c) := by
  unfold Manifest.readPin Manifest.read
  exact .bind (.readText _) fun text => .ofExcept _ _

theorem dependsOnFiles_changeManifest (c : Config) (pin : Pin) (latest : Release) (bump : Bump) :
    Job.DependsOnFiles (changeManifest c pin latest bump) := by
  unfold changeManifest Manifest.bumpVersion Manifest.replaceAll Manifest.read
  refine .bind (.announce _) fun _ => .bind ?_ fun change => .bind (.say _) fun _ =>
    .bind ?_ fun count => .bind (.say _) fun _ => .pure _
  · refine .bind (.readText _) fun text => .bind (.ofExcept _ _) fun p => ?_
    obtain ⟨change, written⟩ := p
    exact .bind (.writeText _ _) fun _ => .pure _
  · exact .bind (.readText _) fun text => .bind (.writeText _ _) fun _ => .pure _

theorem dependsOnFiles_decided (c : Config) (pin : Pin) (latest : Release) :
    Job.DependsOnFiles (decided c pin latest) := by
  unfold decided
  split
  · exact .pure _
  · exact .bind (.say _) fun _ =>
      .bind (dependsOnFiles_changeManifest c pin latest _) fun change => .pure _

/-! ## §2. A run on two sites. -/

/-- **With the same files and the same latest release the first stage is the same.** -/
theorem on_prepared_congr (h : s.SameFiles t)
    (hlatest : (Job.on (fetchLatest c) t).1 = (Job.on (fetchLatest c) s).1) :
    (Job.on (prepared c) t).1 = (Job.on (prepared c) s).1
      ∧ (Job.on (prepared c) t).2.tree = (Job.on (prepared c) s).2.tree := by
  have hpin := (dependsOnFiles_readPin c).result s t h
  cases hs : (Job.on (Manifest.readPin c) s).1 with
  | error f =>
    obtain ⟨u, hu, hut⟩ := on_prepared_error (.inl hs)
    obtain ⟨v, hv, hvt⟩ := on_prepared_error (.inl (hpin.trans hs))
    rw [hu, hv]
    exact ⟨rfl, hvt.trans (h.tree.trans hut.symm)⟩
  | ok pin =>
  cases hf : (Job.on (fetchLatest c) s).1 with
  | error f =>
    obtain ⟨u, hu, hut⟩ := on_prepared_error (.inr ⟨⟨pin, hs⟩, hf⟩)
    obtain ⟨v, hv, hvt⟩ := on_prepared_error (.inr ⟨⟨pin, hpin.trans hs⟩, hlatest.trans hf⟩)
    rw [hu, hv]
    exact ⟨rfl, hvt.trans (h.tree.trans hut.symm)⟩
  | ok latest =>
    obtain ⟨u, hu, hut, huh⟩ := on_prepared hs hf
    obtain ⟨v, hv, hvt, hvh⟩ := on_prepared (hpin.trans hs) (hlatest.trans hf)
    have huv : u.SameFiles v :=
      ⟨hvh.trans (h.here.trans huh.symm), hvt.trans (h.tree.trans hut.symm)⟩
    rw [hu, hv]
    exact ⟨(dependsOnFiles_decided c pin latest).result u v huv,
      ((dependsOnFiles_decided c pin latest).files u v huv).tree⟩

/-- The files behind a run are those behind its first stage. -/
theorem tree_of_run (c : Config) (skipPublish : Bool) (s : Site) :
    (Job.on (run c skipPublish) s).2.tree = (Job.on (prepared c) s).2.tree := by
  cases hp : (Job.on (prepared c) s).1 with
  | error f => exact (on_run_of_error skipPublish hp).2.2
  | ok o =>
    cases o with
    | none => exact (on_run_of_none skipPublish hp).2.2
    | some change => exact (on_run_of_some skipPublish hp).2.2

/-- The result of a run is that of its first stage and of its exits. -/
theorem on_run_congr {skipPublish : Bool}
    (hp : (Job.on (prepared c) t).1 = (Job.on (prepared c) s).1) (he : t.exits = s.exits) :
    (Job.on (run c skipPublish) t).1 = (Job.on (run c skipPublish) s).1 := by
  cases hs : (Job.on (prepared c) s).1 with
  | error f =>
    rw [(on_run_of_error skipPublish hs).1, (on_run_of_error skipPublish (hp.trans hs)).1]
  | ok o =>
    cases o with
    | none => rw [(on_run_of_none skipPublish hs).1, (on_run_of_none skipPublish (hp.trans hs)).1]
    | some change =>
      rw [(on_run_of_some skipPublish hs).1, (on_run_of_some skipPublish (hp.trans hs)).1, he]

/-- Without a latest release the run stops and leaves the files alone. -/
theorem on_run_of_unfound {f : Fault} (skipPublish : Bool)
    (h : (Job.on (fetchLatest c) s).1 = .error f) :
    (∃ e, (Job.on (run c skipPublish) s).1 = .error e)
      ∧ (Job.on (run c skipPublish) s).2.tree = s.tree := by
  have hstop : ∃ e u, Job.on (prepared c) s = (.error e, u) ∧ u.tree = s.tree := by
    cases hpin : (Job.on (Manifest.readPin c) s).1 with
    | error e => exact ⟨e, on_prepared_error (.inl hpin)⟩
    | ok pin => exact ⟨f, on_prepared_error (.inr ⟨⟨pin, hpin⟩, h⟩)⟩
  obtain ⟨e, u, hu, hut⟩ := hstop
  constructor
  · exact ⟨e, (on_run_of_error skipPublish (congrArg Prod.fst hu)).1⟩
  · rw [tree_of_run, hu]
    exact hut

/-! ## §3. The order of a listing. -/

/-- Without suffixes, permuted listings have the same latest release, or neither has one. -/
theorem fetchLatest_of_perm {ns ms : List (List CodePoint)} (hc : c.allowPrerelease = false)
    (hs : (Job.on (Listing.fetchNames c c.owner c.repo) s).1 = .ok ns)
    (ht : (Job.on (Listing.fetchNames c c.owner c.repo) t).1 = .ok ms) (hperm : ns.Perm ms) :
    (Job.on (fetchLatest c) t).1 = (Job.on (fetchLatest c) s).1
      ∨ (∃ f, (Job.on (fetchLatest c) s).1 = .error f)
        ∧ ∃ f, (Job.on (fetchLatest c) t).1 = .error f := by
  have hsame := Listing.releases_perm (p := Listing.pattern c) hc hperm
  rw [Listing.on_fetchLatest_eq, Listing.on_fetchLatest_eq,
    Listing.on_fetchReleases_of_names hs, Listing.on_fetchReleases_of_names ht]
  cases hns : Listing.releases (Listing.pattern c) ns with
  | ok rs =>
    rw [(hsame rs).1 hns]
    exact .inl rfl
  | error e =>
    cases hms : Listing.releases (Listing.pattern c) ms with
    | ok rs =>
      rw [(hsame rs).2 hms] at hns
      cases hns
    | error e' => exact .inr ⟨⟨_, rfl⟩, _, rfl⟩

theorem fetchLatest_eq_ok_iff_of_perm {ns ms : List (List CodePoint)}
    (hc : c.allowPrerelease = false)
    (hs : (Job.on (Listing.fetchNames c c.owner c.repo) s).1 = .ok ns)
    (ht : (Job.on (Listing.fetchNames c c.owner c.repo) t).1 = .ok ms) (hperm : ns.Perm ms)
    (latest : Release) :
    (Job.on (fetchLatest c) s).1 = .ok latest ↔ (Job.on (fetchLatest c) t).1 = .ok latest := by
  rcases fetchLatest_of_perm hc hs ht hperm with he | ⟨⟨f, hf⟩, g, hg⟩
  · rw [he]
  · rw [hf, hg]
    exact ⟨nofun, nofun⟩

/-- Two sites with the same files have the same update if they have the same latest release. -/
theorem Moves.congr {pin : Pin} {latest : Release} {bump : Bump} (h : s.SameFiles t)
    (hlatest : (Job.on (fetchLatest c) s).1 = .ok latest → (Job.on (fetchLatest c) t).1 = .ok latest)
    (hm : Moves c s pin latest bump) : Moves c t pin latest bump :=
  ⟨((dependsOnFiles_readPin c).result s t h).trans hm.pinned, hlatest hm.found, hm.called⟩

/-- Without suffixes, runs on permuted listings leave the same files, and with the same exits
they come to the same outcome. -/
theorem on_run_of_perm {ns ms : List (List CodePoint)} (hc : c.allowPrerelease = false)
    (h : s.SameFiles t) (hs : (Job.on (Listing.fetchNames c c.owner c.repo) s).1 = .ok ns)
    (ht : (Job.on (Listing.fetchNames c c.owner c.repo) t).1 = .ok ms) (hperm : ns.Perm ms)
    (skipPublish : Bool) :
    (Job.on (run c skipPublish) s).2.tree = (Job.on (run c skipPublish) t).2.tree
      ∧ (t.exits = s.exits → ∀ outcome, (Job.on (run c skipPublish) s).1 = .ok outcome
          ↔ (Job.on (run c skipPublish) t).1 = .ok outcome) := by
  rcases fetchLatest_of_perm hc hs ht hperm with he | ⟨⟨f, hf⟩, g, hg⟩
  · obtain ⟨hp, htree⟩ := on_prepared_congr h he
    constructor
    · rw [tree_of_run, tree_of_run, htree]
    · intro hexits outcome
      rw [on_run_congr hp hexits]
  · obtain ⟨⟨e, hse⟩, hst⟩ := on_run_of_unfound skipPublish hf
    obtain ⟨⟨e', hte⟩, htt⟩ := on_run_of_unfound skipPublish hg
    constructor
    · rw [hst, htt, h.tree]
    · intro _ outcome
      rw [hse, hte]
      exact ⟨nofun, nofun⟩

/-- **Without suffixes the order in which the host lists its tags makes no difference**: not
for the releases, the latest one and the bump, and not for the files and the outcome of a
run. -/
theorem run_of_perm (hc : c.allowPrerelease = false) :
    (∀ ns ms : List (List CodePoint), ns.Perm ms → ∀ rs,
      Listing.releases (Listing.pattern c) ns = .ok rs
        ↔ Listing.releases (Listing.pattern c) ms = .ok rs)
      ∧ ∀ (s t : Site) (ns ms : List (List CodePoint)), s.SameFiles t →
          (Job.on (Listing.fetchNames c c.owner c.repo) s).1 = .ok ns →
          (Job.on (Listing.fetchNames c c.owner c.repo) t).1 = .ok ms → ns.Perm ms →
        (∀ rs, (Job.on (Listing.fetchReleases c c.owner c.repo) s).1 = .ok rs
            ↔ (Job.on (Listing.fetchReleases c c.owner c.repo) t).1 = .ok rs)
        ∧ (∀ latest, (Job.on (fetchLatest c) s).1 = .ok latest
            ↔ (Job.on (fetchLatest c) t).1 = .ok latest)
        ∧ (∀ pin latest bump, Moves c s pin latest bump ↔ Moves c t pin latest bump)
        ∧ ∀ skipPublish,
            (Job.on (run c skipPublish) s).2.tree = (Job.on (run c skipPublish) t).2.tree
            ∧ (t.exits = s.exits → ∀ outcome, (Job.on (run c skipPublish) s).1 = .ok outcome
                ↔ (Job.on (run c skipPublish) t).1 = .ok outcome) := by
  refine ⟨fun ns ms hperm => Listing.releases_perm hc hperm, ?_⟩
  intro s t ns ms h hs ht hperm
  have hlatest := fetchLatest_eq_ok_iff_of_perm hc hs ht hperm
  refine ⟨?_, hlatest, ?_, on_run_of_perm hc h hs ht hperm⟩
  · intro rs
    rw [Listing.fetchReleases_eq_ok_iff hs, Listing.fetchReleases_eq_ok_iff ht]
    exact Listing.releases_perm hc hperm rs
  · intro pin latest bump
    exact ⟨.congr h (hlatest latest).1, .congr h.symm (hlatest latest).2⟩

/-! ## §4. Two listings. -/

/-- The small site, where the host lists the given names. -/
def pageSite (names : List Text) : Site := smallSite.replying (pageOf names)

theorem sameFiles_pageSite (names others : List Text) :
    (pageSite names).SameFiles (pageSite others) where
  here := rfl
  tree := rfl

/-- A site that lists the pinned release before a later one. -/
def risingSite : Site := pageSite ["v1.0.0", "v1.1.0"]

def fallingSite : Site := pageSite ["v1.1.0", "v1.0.0"]

/-- What the two sites list, and what both pin. -/
theorem names_of_pageSites :
    (Job.on (Listing.fetchNames smallConfig smallConfig.owner smallConfig.repo) risingSite).1
        = .ok [CodePoint.ofText "v1.0.0", CodePoint.ofText "v1.1.0"]
      ∧ (Job.on (Listing.fetchNames smallConfig smallConfig.owner smallConfig.repo) fallingSite).1
        = .ok [CodePoint.ofText "v1.1.0", CodePoint.ofText "v1.0.0"]
      ∧ (Job.on (Manifest.readPin smallConfig) risingSite).1
        = .ok ⟨"v1.0.0", ⟨1, 0, 0, [], []⟩⟩ := by
  refine ⟨eq_ok_of_toOption ?_, eq_ok_of_toOption ?_, eq_ok_of_toOption ?_⟩
  · decide +kernel
  · decide +kernel
  · decide +kernel

theorem names_of_risingSite :
    (Job.on (Listing.fetchNames smallConfig smallConfig.owner smallConfig.repo) risingSite).1
      = .ok [CodePoint.ofText "v1.0.0", CodePoint.ofText "v1.1.0"] :=
  names_of_pageSites.1

theorem moves_of_risingSite :
    Moves smallConfig risingSite ⟨"v1.0.0", ⟨1, 0, 0, [], []⟩⟩ ⟨"v1.1.0", ⟨1, 1, 0, [], []⟩⟩
      .minor := by
  refine ⟨names_of_pageSites.2.2, ?_, by decide⟩
  have hread : (Listing.accepted (Listing.pattern smallConfig)
      [CodePoint.ofText "v1.0.0", CodePoint.ofText "v1.1.0"]).mapM
        (Listing.release (Listing.pattern smallConfig))
      = .ok [⟨"v1.0.0", ⟨1, 0, 0, [], []⟩⟩, ⟨"v1.1.0", ⟨1, 1, 0, [], []⟩⟩] :=
    eq_ok_of_toOption (by decide)
  rw [Listing.on_fetchLatest_eq, Listing.on_fetchReleases_of_names names_of_risingSite,
    Listing.releases_of_pairwise hread (by decide)]
  rfl

theorem run_of_fallingSite :
    (Job.on (Listing.fetchNames smallConfig smallConfig.owner smallConfig.repo) fallingSite).1
        = .ok [CodePoint.ofText "v1.1.0", CodePoint.ofText "v1.0.0"]
      ∧ Moves smallConfig fallingSite ⟨"v1.0.0", ⟨1, 0, 0, [], []⟩⟩
          ⟨"v1.1.0", ⟨1, 1, 0, [], []⟩⟩ .minor
      ∧ (Job.on (run smallConfig false) risingSite).2.tree
        = (Job.on (run smallConfig false) fallingSite).2.tree := by
  obtain ⟨-, hfalling, -⟩ := names_of_pageSites
  obtain ⟨-, hsites⟩ := run_of_perm (c := smallConfig) rfl
  obtain ⟨-, -, hmoves, hruns⟩ := hsites risingSite fallingSite _ _
    (sameFiles_pageSite _ _) names_of_risingSite hfalling (.swap _ _ _)
  exact ⟨hfalling, (hmoves _ _ _).1 moves_of_risingSite, (hruns false).1⟩

end Update
end Repin
