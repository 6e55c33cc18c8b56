/-
  Repin.Proofs.Update.Upgrade
  ───────────────────────────
  **AN UPDATE NEVER GOES BACK BEHIND A LISTED PIN.**

  The bump of a move is decided by tag identity and takes no notice of precedence, so that
  an update is an upgrade is due to the listing: the latest release is one that no listed
  release is after (`listed_of_pick`).  If the pinned tag is on the page of the host and
  the pattern accepts it, it is one of the listed releases (`exists_release_of_name`), and
  the latest release is not below it.  Without suffixes two listed releases of equal
  precedence are the same one, so a run that has something to do moves to a release that
  is above the pinned one (`upgrade_of_listed`).
-/
import Repin.Proofs.Update.Findings

namespace Repin

/-! ## §1. The latest release and those on the page. -/

namespace Listing

variable {p : TagPattern} {names : List (List CodePoint)} {rs : List Release}

/-- An accepted name on the page is that of a listed release. -/
theorem exists_release_of_name (h : releases p names = .ok rs) {tag : Text}
    (hm : CodePoint.ofText tag ∈ names) (ha : p.accepts tag = true) : ∃ r ∈ rs, r.name = tag := by
  obtain ⟨xs, hxs, rfl⟩ := releases_eq_ok_iff.1 h
  have haccepted : CodePoint.ofText tag ∈ names.filter (isAccepted p) := by
    apply List.mem_filter.2
    rw [isAccepted_ofText]
    exact ⟨hm, ha⟩
  obtain ⟨r, hr, hname, -⟩ := exists_of_mem_forall₂ hxs.flip haccepted
  exact ⟨r, List.mem_mergeSort.2 hr, (CodePoint.ofText_inj.1 hname).symm⟩

/-- No listed release is after the latest one. -/
theorem listed_of_pick (h : releases p names = .ok rs) {latest : Release}
    (hp : pick p rs = .ok latest) : ∀ r ∈ rs, listed r latest = true := by
  obtain ⟨xs, -, rfl⟩ := releases_eq_ok_iff.1 h
  apply le_of_getLast? listed_total (List.pairwise_mergeSort listed_trans listed_total xs)
  unfold pick at hp
  split at hp
  · next r hr =>
    cases hp
    exact hr
  · cases hp

end Listing

/-! ## §2. No way back. -/

namespace Update

variable {c : Config} {s : Site} {pin : Pin} {latest : Release} {names : List (List CodePoint)}

/-- What has been found is the latest of the releases among the names. -/
theorem exists_releases_of_fetchLatest
    (hlatest : (Job.on (fetchLatest c) s).1 = .ok latest)
    (hnames : (Job.on (Listing.fetchNames c c.owner c.repo) s).1 = .ok names) :
    ∃ rs, Listing.releases (Listing.pattern c) names = .ok rs
      ∧ Listing.pick (Listing.pattern c) rs = .ok latest := by
  rw [Listing.on_fetchLatest_eq] at hlatest
  obtain ⟨rs, hrs, hpick⟩ := exists_of_bind_eq_ok hlatest
  exact ⟨rs, (Listing.fetchReleases_eq_ok_iff hnames).1 hrs, hpick⟩

theorem ofTag_of_readPin (hpin : (Job.on (Manifest.readPin c) s).1 = .ok pin) :
    Version.ofTag c.tagPrefix pin.tag = .ok pin.version := by
  obtain ⟨text, -, hpinned⟩ := exists_text_of_readPin hpin
  obtain ⟨e, -, -, hv⟩ := Manifest.exists_first?_of_pinned hpinned
  exact hv

/-- Where there is an update, a run does not say that there is none. -/
theorem ne_noUpdate_of_moves {bump : Bump} (h : Moves c s pin latest bump) (skipPublish : Bool) :
    (Job.on (run c skipPublish) s).1 ≠ .ok .noUpdateAvailable := by
  rcases prepared_cases c s with ⟨f, t, hp, -, -⟩ | ⟨pin', latest', t, -, -, hpin, hlatest, hnone⟩ |
    ⟨pin', latest', bump', change, -, -, -, -, t, hp, -, -, -, -, -⟩
  · rw [(on_run_of_error skipPublish (congrArg Prod.fst hp)).1]
    exact nofun
  · -- The decision is that of the pin and of the latest release.
    obtain rfl : pin = pin' := Except.ok.inj (h.pinned.symm.trans hpin)
    obtain rfl : latest = latest' := Except.ok.inj (h.found.symm.trans hlatest)
    have hcalled := h.called
    rw [hnone] at hcalled
    cases hcalled
  · intro hrun
    apply not_endsEarly_of_some skipPublish (congrArg Prod.fst hp)
    rw [hrun]
    rfl

/-- **While the pinned tag is on the page, no update goes back**: the latest release is not
below the pinned one, and without suffixes it is above it if the run has something to do. -/
theorem upgrade_of_listed (hpin : (Job.on (Manifest.readPin c) s).1 = .ok pin)
    (hlatest : (Job.on (fetchLatest c) s).1 = .ok latest)
    (hnames : (Job.on (Listing.fetchNames c c.owner c.repo) s).1 = .ok names)
    (hmem : CodePoint.ofText pin.tag ∈ names)
    (hacc : (Listing.pattern c).accepts pin.tag = true) :
    ¬ latest.version.Below pin.version
      ∧ (c.allowPrerelease = false → ∀ skipPublish,
          (Job.on (run c skipPublish) s).1 ≠ .ok .noUpdateAvailable →
            pin.version.Below latest.version) := by
  obtain ⟨rs, hrs, hpick⟩ := exists_releases_of_fetchLatest hlatest hnames
  obtain ⟨r, hr, hname⟩ := Listing.exists_release_of_name hrs hmem hacc
  have hversion : r.version = pin.version := by
    have hv := Listing.ofTag_of_mem_releases hrs hr
    rw [hname] at hv
    exact Except.ok.inj (hv.symm.trans (ofTag_of_readPin hpin))
  have hle : Listing.listed r latest = true := Listing.listed_of_pick hrs hpick r hr
  constructor
  · rw [← hversion]
    exact Version.notAfter_iff.1 hle
  · intro hc skipPublish hrun
    by_contra hbelow
    -- Then the latest release is not after the pinned one, so it is the pinned one.
    have hge : Listing.listed latest r = true := by
      apply Version.notAfter_iff.2
      rwa [hversion]
    have hsame : r = latest :=
      Listing.eq_of_listed (p := Listing.pattern c) hc hrs hr (Listing.mem_of_pick hpick) hle hge
    have htag : pin.tag = latest.name := by
      rw [← hname, hsame]
    exact hrun (noUpdate_of_pinned hpin hlatest htag skipPublish).1

theorem upgrade_of_risingSite :
    Moves smallConfig risingSite ⟨"v1.0.0", ⟨1, 0, 0, [], []⟩⟩ ⟨"v1.1.0", ⟨1, 1, 0, [], []⟩⟩
        .minor
      ∧ CodePoint.ofText "v1.0.0" ∈ [CodePoint.ofText "v1.0.0", CodePoint.ofText "v1.1.0"]
      ∧ (Listing.pattern smallConfig).accepts "v1.0.0" = true
      ∧ (Job.on (run smallConfig false) risingSite).1 ≠ .ok .noUpdateAvailable
      ∧ ¬ Version.Below ⟨1, 1, 0, [], []⟩ ⟨1, 0, 0, [], []⟩
      ∧ Version.Below ⟨1, 0, 0, [], []⟩ ⟨1, 1, 0, [], []⟩ := by
  have hmoves := moves_of_risingSite
  have hrun := ne_noUpdate_of_moves hmoves false
  have hmem : CodePoint.ofText "v1.0.0"
      ∈ [CodePoint.ofText "v1.0.0", CodePoint.ofText "v1.1.0"] := List.mem_cons_self
  have hacc : (Listing.pattern smallConfig).accepts "v1.0.0" = true := by decide
  obtain ⟨hnot, habove⟩ := upgrade_of_listed hmoves.pinned hmoves.found names_of_risingSite
    hmem hacc
  exact ⟨hmoves, hmem, hacc, hrun, hnot, habove rfl false hrun⟩

end Update
end Repin
