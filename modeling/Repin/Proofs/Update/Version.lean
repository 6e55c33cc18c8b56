/-
  Repin.Proofs.Update.Version
  ───────────────────────────
  **THE VERSION THAT IS PUBLISHED IS THE ONE THAT THE MANIFEST DECLARES.**

  An update publishes the version that the bump has written.  The pin is moved behind the
  bump, and the version is still there unless the old tag occurs so that it ends in the
  version:

      changeManifest … = ok change  →  readVersion = ok change.new, or no document is left

  With an empty prefix a tag is a version, and a pin of the version that the bump has just
  written takes the declared version along (`version_moved_with_pin`).
-/
import Repin.Proofs.Manifest.Version
import Repin.Proofs.Update.Convergence

namespace Repin

namespace Update

variable {c : Config} {s : Site} {pin : Pin} {latest : Release} {bump : Bump}
  {change : VersionChange}

/-- The manifest could be read and bumped if it was changed. -/
theorem exists_of_changeManifest
    (h : (Job.on (changeManifest c pin latest bump) s).1 = .ok change) :
    ∃ t u, s.textAt c.manifestPath = .ok t ∧ Manifest.bumped bump t = .ok (change, u) := by
  cases ht : s.textAt c.manifestPath with
  | error f =>
    unfold changeManifest Job.announce at h
    rw [Job.on_bind_ok (Job.on_say _ s)] at h
    set s₁ : Site := { s with log := _ }
    have hr : Job.on (Job.readText c.manifestPath) s₁ = (.error f, s₁) := by
      rw [Job.on_readText, show s₁.textAt c.manifestPath = .error f from ht]
    have hb : Job.on (Manifest.bumpVersion c bump) s₁ = (.error f, s₁) := by
      unfold Manifest.bumpVersion Manifest.read
      rw [Job.on_bind_error hr]
    rw [Job.on_bind_error hb] at h
    cases h
  | ok t =>
    cases hw : Manifest.bumped bump t with
    | error f =>
      obtain ⟨v, hv, -⟩ := on_changeManifest_error pin latest ht hw
      rw [hv] at h
      cases h
    | ok p =>
      obtain ⟨change', u⟩ := p
      obtain ⟨l, b, hl, -⟩ := Site.exists_holds_of_textAt ht
      obtain ⟨v, hv, -⟩ := on_changeManifest pin latest hl ht hw
      rw [hv] at h
      cases h
      exact ⟨t, u, rfl, hw⟩

/-- The version that the manifest declares once it is changed. -/
def versionBehind (c : Config) (pin : Pin) (latest : Release) (bump : Bump) (s : Site) :
    Except Fault Text :=
  (Job.on (Manifest.readVersion c) (Job.on (changeManifest c pin latest bump) s).2).1

/-- No occurrence of a tag in the bumped manifest ends in the version `new` just written. -/
def SparesVersion (c : Config) (s : Site) (tag new : Text) : Prop :=
  ∀ t a b, s.textAt c.manifestPath = .ok t → Manifest.around? t = some (a, b) →
    Text.Spares tag a ('"' :: (new ++ ['"'])) b

/-- A tag with more than digits and dots in it, but without a quote, spares the version. -/
theorem sparesVersion_of_mem {tag : Text} {d : Char}
    (h : (Job.on (changeManifest c pin latest bump) s).1 = .ok change)
    (hq : '"' ∉ tag) (hd : d ∈ tag) (hdigit : Text.isDigit d = false) (hdot : d ≠ '.') :
    SparesVersion c s tag change.new := by
  intro t a b ht _
  obtain ⟨t, u, -, hb⟩ := exists_of_changeManifest h
  obtain ⟨-, v, -, -, hn, -⟩ := Manifest.bumped_eq_ok hb
  refine Text.spares_of_mem hq hd (fun hm => ?_)
  rcases Bump.isDigit_or_dot_of_mem_nextText hn d hm with h | h
  · rw [hdigit] at h
    cases h
  · exact hdot h

/-- Moving the pin brings no carriage return into the manifest: the tags differ in their
versions only. -/
theorem return_notMem_replaced {start v w t : Text} (hv : Text.IsVersion v)
    (hw : Text.IsVersion w) (ht : '\r' ∉ t) :
    '\r' ∉ Text.replaced (start ++ v) (start ++ w) t := by
  have h : Text.Exchanged True [] [] t (Text.replaced (start ++ v) (start ++ w) t) :=
    Text.exchanged_replaced hv hw t
  generalize Text.replaced (start ++ v) (start ++ w) t = u at h
  induction h with
  | base => exact ht
  | keep d _ ih =>
    intro hm
    rcases List.mem_cons.1 hm with rfl | hm
    · exact ht List.mem_cons_self
    · exact ih (fun h => ht (List.mem_cons_of_mem d h)) hm
  | swap _ _ hw' _ ih =>
    intro hm
    rcases List.mem_append.1 hm with hm | hm
    · exact absurd (hw'.chars _ hm) (by decide)
    · exact ih (fun h => ht (List.mem_append_right _ h)) hm

theorem return_notMem_replaced_of_ofTag {start old new t : Text} {v w : Version}
    (ho : Version.ofTag start old = .ok v) (hn : Version.ofTag start new = .ok w)
    (ht : '\r' ∉ t) : '\r' ∉ Text.replaced old new t := by
  obtain ⟨hold, hv⟩ := Version.exists_of_ofTag ho
  obtain ⟨hnew, hw⟩ := Version.exists_of_ofTag hn
  rw [hold, hnew]
  exact return_notMem_replaced hv hw ht

/-- **The manifest behind an update**: bumped, and with the latest tag for the pinned one. -/
theorem exists_textAt_of_changeManifest
    (h : (Job.on (changeManifest c pin latest bump) s).1 = .ok change)
    (hpin : Version.ofTag c.tagPrefix pin.tag = .ok pin.version)
    (hlatest : Version.ofTag c.tagPrefix latest.name = .ok latest.version) :
    ∃ t u, s.textAt c.manifestPath = .ok t ∧ Manifest.bumped bump t = .ok (change, u)
      ∧ (Job.on (changeManifest c pin latest bump) s).2.textAt c.manifestPath
        = .ok (Text.replaced pin.tag latest.name u) := by
  obtain ⟨t, u, ht, hb⟩ := exists_of_changeManifest h
  obtain ⟨l, b, hl, -⟩ := Site.exists_holds_of_textAt ht
  obtain ⟨x, hx, htree, hhere⟩ := on_changeManifest pin latest hl ht hb
  refine ⟨t, u, ht, hb, ?_⟩
  have hu : '\r' ∉ u := Manifest.return_notMem_bumped (Site.return_notMem_of_textAt ht) hb
  have hr : '\r' ∉ Text.replaced pin.tag latest.name u :=
    return_notMem_replaced_of_ofTag hpin hlatest hu
  have hput : x.tree.Holds x.here c.manifestPath l
      (Text.encode (Text.replaced pin.tag latest.name u)) := by
    rw [htree, hhere]
    exact hl.put _
  rw [hx, Site.textAt_of_holds hput, Text.unified_eq_self hr]

/-- **The manifest declares the version that an update publishes**, if it is a document
still and the version was spared. -/
theorem version_behind_changeManifest
    (h : (Job.on (changeManifest c pin latest bump) s).1 = .ok change)
    (hpin : Version.ofTag c.tagPrefix pin.tag = .ok pin.version)
    (hlatest : Version.ofTag c.tagPrefix latest.name = .ok latest.version)
    (hspares : SparesVersion c s pin.tag change.new) :
    versionBehind c pin latest bump s = .ok change.new
      ∨ versionBehind c pin latest bump s = .error .notToml := by
  obtain ⟨t, u, ht, hb, hbehind⟩ := exists_textAt_of_changeManifest h hpin hlatest
  obtain ⟨hold, hv⟩ := Version.exists_of_ofTag hpin
  obtain ⟨hnew, hw⟩ := Version.exists_of_ofTag hlatest
  unfold versionBehind
  rw [Manifest.on_readVersion, hbehind]
  obtain ⟨d, as, old, bs, root, -, -, haround, -⟩ := Manifest.exists_of_bumped hb
  have hs := hspares t _ _ ht haround
  rw [hold] at hs
  rw [hold, hnew]
  exact Manifest.declaredVersion_replaced hb hv hw haround hs

theorem version_behind_smallSite :
    (Job.on (changeManifest smallConfig ⟨"v1.0.0", ⟨1, 0, 0, [], []⟩⟩
        ⟨"v1.1.0", ⟨1, 1, 0, [], []⟩⟩ .minor) smallSite).1 = .ok ⟨"0.1.0", "0.2.0"⟩
      ∧ versionBehind smallConfig ⟨"v1.0.0", ⟨1, 0, 0, [], []⟩⟩ ⟨"v1.1.0", ⟨1, 1, 0, [], []⟩⟩
          .minor smallSite = .ok "0.2.0" := by
  have h : (Job.on (changeManifest smallConfig ⟨"v1.0.0", ⟨1, 0, 0, [], []⟩⟩
      ⟨"v1.1.0", ⟨1, 1, 0, [], []⟩⟩ .minor) smallSite).1 = .ok ⟨"0.1.0", "0.2.0"⟩ :=
    eq_ok_of_toOption (by decide +kernel)
  refine ⟨h, ?_⟩
  have hspares : SparesVersion smallConfig smallSite "v1.0.0" "0.2.0" :=
    sparesVersion_of_mem (d := 'v') h (by decide +kernel) (by decide +kernel) rfl (by decide)
  rcases version_behind_changeManifest h (eq_ok_of_toOption (by decide +kernel))
    (eq_ok_of_toOption (by decide +kernel)) hspares with hversion | hnone
  · exact hversion
  · -- The manifest is a document still.
    have hsome : (versionBehind smallConfig ⟨"v1.0.0", ⟨1, 0, 0, [], []⟩⟩
        ⟨"v1.1.0", ⟨1, 1, 0, [], []⟩⟩ .minor smallSite).toOption.isSome = true := by
      decide +kernel
    rw [hnone] at hsome
    cases hsome

/-! ## §2. Manifests whose version is not spared, or that end as no document. -/

/-- It pins the version that a bump is about to write. -/
def coincidingManifest : Text :=
  "[package]\nversion = \"1.0.0\"\n[dependencies]\nx = \x7b git = \"u\", tag = \"1.0.1\" \x7d\n"

/-- Its keys name the pinned tag and the latest one. -/
def collidingManifest : Text :=
  "[package]\nversion = \"0.1.0\"\n[dependencies]\nx = \x7b git = \"u\", tag = \"v1.0.0\" \x7d\n"
    ++ "[notes]\n\"v1.0.0\" = 1\n\"v1.0.1\" = 2\n"

/-- **A pin can take the declared version along**, and its move can leave no document. -/
theorem version_moved_with_pin :
    (Job.on (changeManifest { sourceUrl := "u", tagPrefix := "" }
        ⟨"1.0.1", { major := 1, minor := 0, patch := 1 }⟩
        ⟨"1.0.2", { major := 1, minor := 0, patch := 2 }⟩ .patch)
        (.withManifest coincidingManifest)).1
        = .ok ⟨"1.0.0", "1.0.1"⟩
      ∧ versionBehind { sourceUrl := "u", tagPrefix := "" }
        ⟨"1.0.1", { major := 1, minor := 0, patch := 1 }⟩
        ⟨"1.0.2", { major := 1, minor := 0, patch := 2 }⟩ .patch (.withManifest coincidingManifest)
        = .ok "1.0.2"
      ∧ (Job.on (changeManifest smallConfig ⟨"v1.0.0", { major := 1, minor := 0, patch := 0 }⟩
        ⟨"v1.0.1", { major := 1, minor := 0, patch := 1 }⟩ .patch)
        (.withManifest collidingManifest)).1
        = .ok ⟨"0.1.0", "0.1.1"⟩
      ∧ (versionBehind smallConfig ⟨"v1.0.0", { major := 1, minor := 0, patch := 0 }⟩
        ⟨"v1.0.1", { major := 1, minor := 0, patch := 1 }⟩ .patch
        (.withManifest collidingManifest)).toOption = none := by
  refine ⟨eq_ok_of_toOption ?_, eq_ok_of_toOption ?_, eq_ok_of_toOption ?_, ?_⟩
  · decide +kernel
  · decide +kernel
  · decide +kernel
  · decide +kernel

end Update
end Repin
