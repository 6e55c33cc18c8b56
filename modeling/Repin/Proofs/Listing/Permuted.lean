/-
  Repin.Proofs.Listing.Permuted
  ─────────────────────────────
  **WITHOUT SUFFIXES THE ORDER OF THE NAMES HAS NO SAY.**

  The sort of the releases is stable, so names of equal precedence are listed in the order
  in which the host gives them.  Without suffixes there are no two such names: what the
  pattern accepts is a plain release, plain releases of equal precedence are the same
  version (`eq_of_listed`), and a version has one tag.  The sorted list is then the only
  one that is sorted, whatever the order of the names:

      ns.Perm ms  →  (releases p ns = .ok rs  ↔  releases p ms = .ok rs)    (`releases_perm`)

  With suffixes this fails for two names that differ in their build parts
  (`releases_of_swappedBuilds`).
-/
import Mathlib.Data.List.Perm.Basic
import Repin.Proofs.Listing.Order
import Repin.Proofs.Tag.Identity
import Repin.Proofs.Tag.Pattern

namespace Repin

/-! ## §1. Plain releases of equal precedence. -/

/-- A plain release has no build part that precedence could leave out. -/
theorem Version.IsPlain.unbuilt_eq {v : Version} (h : v.IsPlain) : v.unbuilt = v := by
  unfold unbuilt
  rw [← h.2]

namespace Listing

variable {p : TagPattern} {ns ms : List (List CodePoint)} {rs : List Release}

/-- Without suffixes all that is listed are plain releases. -/
theorem isPlain_of_mem_releases (hp : p.suffixed = false) (h : releases p ns = .ok rs)
    {r : Release} (hr : r ∈ rs) : r.version.IsPlain := by
  obtain ⟨xs, hxs, rfl⟩ := releases_eq_ok_iff.1 h
  obtain ⟨n, hn, rfl, hv⟩ := exists_of_mem_forall₂ hxs (List.mem_mergeSort.1 hr)
  have ha := (List.mem_filter.1 hn).2
  rw [isAccepted_ofText, Version.eq_of_ofTag hv] at ha
  exact TagPattern.isPlain_of_accepts hp ha

/-- Without suffixes two releases that are not after each other are the same one. -/
theorem eq_of_listed (hp : p.suffixed = false) (h : releases p ns = .ok rs) {a b : Release}
    (ha : a ∈ rs) (hb : b ∈ rs) (hab : listed a b = true) (hba : listed b a = true) : a = b := by
  have hversion : a.version = b.version := by
    have hu := Version.unbuilt_eq_of_notAfter hab hba
    rwa [(isPlain_of_mem_releases hp h ha).unbuilt_eq,
      (isPlain_of_mem_releases hp h hb).unbuilt_eq] at hu
  have hname : a.name = b.name :=
    (Version.tag_eq_iff (ofTag_of_mem_releases h ha) (ofTag_of_mem_releases h hb)).2 hversion
  show Release.mk a.name a.version = Release.mk b.name b.version
  rw [hname, hversion]

/-! ## §2. Permuted names. -/

theorem releases_of_perm (hp : p.suffixed = false) (hperm : ns.Perm ms)
    (h : releases p ns = .ok rs) : releases p ms = .ok rs := by
  obtain ⟨xs, hxs, rfl⟩ := releases_eq_ok_iff.1 h
  -- The other names stand for the same releases, in another order.
  obtain ⟨ys, hys, hyx⟩ := List.perm_comp_forall₂ (hperm.filter (isAccepted p)).symm hxs
  have hsame : (xs.mergeSort listed).Perm (ys.mergeSort listed) :=
    calc (xs.mergeSort listed).Perm xs := List.mergeSort_perm xs listed
      _ |>.Perm ys := hyx.symm
      _ |>.Perm (ys.mergeSort listed) := (List.mergeSort_perm ys listed).symm
  have hsorted : ∀ zs : List Release,
      (zs.mergeSort listed).Pairwise (fun a b => listed a b = true) :=
    List.pairwise_mergeSort listed_trans listed_total
  apply releases_eq_ok_iff.2
  refine ⟨ys, hys, ?_⟩
  apply List.Perm.eq_of_pairwise ?_ (hsorted xs) (hsorted ys) hsame
  intro a b ha hb hab hba
  exact eq_of_listed hp h ha (hsame.symm.subset hb) hab hba

/-- **Without suffixes permuted names give the same releases.** -/
theorem releases_perm (hp : p.suffixed = false) (hperm : ns.Perm ms) (rs : List Release) :
    releases p ns = .ok rs ↔ releases p ms = .ok rs :=
  ⟨releases_of_perm hp hperm, releases_of_perm hp hperm.symm⟩

/-- With suffixes names of equal precedence keep the order in which they are listed. -/
theorem releases_of_swappedBuilds :
    releases ⟨"v", true⟩ [CodePoint.ofText "v1.0.0+a", CodePoint.ofText "v1.0.0+b"]
      ≠ releases ⟨"v", true⟩ [CodePoint.ofText "v1.0.0+b", CodePoint.ofText "v1.0.0+a"] := by
  have hab : releases ⟨"v", true⟩ [CodePoint.ofText "v1.0.0+a", CodePoint.ofText "v1.0.0+b"]
      = .ok [⟨"v1.0.0+a", ⟨1, 0, 0, [], ["a".toList]⟩⟩,
        ⟨"v1.0.0+b", ⟨1, 0, 0, [], ["b".toList]⟩⟩] :=
    releases_of_pairwise (eq_ok_of_toOption (by decide)) (by decide)
  have hba : releases ⟨"v", true⟩ [CodePoint.ofText "v1.0.0+b", CodePoint.ofText "v1.0.0+a"]
      = .ok [⟨"v1.0.0+b", ⟨1, 0, 0, [], ["b".toList]⟩⟩,
        ⟨"v1.0.0+a", ⟨1, 0, 0, [], ["a".toList]⟩⟩] :=
    releases_of_pairwise (eq_ok_of_toOption (by decide)) (by decide)
  rw [hab, hba]
  intro h
  exact absurd (Except.ok.inj h) (by decide)

end Listing
end Repin
