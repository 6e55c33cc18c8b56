/-
  Repin.Proofs.Manifest.Meaning
  ─────────────────────────────
  **A BUMP CHANGES WHAT A MANIFEST SAYS IN ONE PLACE.**

  The document that a bump writes is the one that was read, behind every path but that
  of the declared version (`exists_of_bumped_path`).  What is written there is a release
  in canonical form, which the next bump reads back as it stands, so bumps can go on:

      Declares c w s  →  bumpVersion c bump  succeeds and leads to  Declares c (bump.next w)

  `bumpVersion_meaning` puts this together for a run: the old version is the one that was
  declared, the new one is declared afterwards, nothing else has changed, and all further
  bumps succeed, each from the version that the one before has written.
-/
import Repin.Proofs.Manifest.Version
import Repin.Proofs.Toml.Path
import Repin.Proofs.Version.Reading

namespace Repin.Manifest

open Toml (Step)

/-! ## §1. The version that is found. -/

/-- The first of the tables that may declare a version and does. -/
def found? (root : Toml.Table) : Option Text :=
  versionTables.find? (fun name => ((root.get? name).bind versionIn?).isSome)

/-- The path to the version of a table. -/
def versionPath (name : Text) : List Step := [.key name, .key "version"]

theorem exists_find?_of_findSome? {α β : Type} {f : α → Option β} {as : List α} {b : β}
    (h : as.findSome? f = some b) :
    ∃ a, as.find? (fun a => (f a).isSome) = some a ∧ f a = some b := by
  induction as with
  | nil => cases h
  | cons a as ih =>
    rw [List.findSome?_cons] at h
    cases hf : f a with
    | some c =>
      rw [hf] at h
      cases h
      refine ⟨a, ?_, hf⟩
      rw [List.find?_cons_of_pos]
      rw [hf]
      rfl
    | none =>
      rw [hf] at h
      obtain ⟨a', ha, hb⟩ := ih h
      refine ⟨a', ?_, hb⟩
      rw [List.find?_cons_of_neg, ha]
      rw [hf]
      exact Bool.false_ne_true

/-- What is declared stands behind the path to the version of the table that is found. -/
theorem exists_found_of_declared? {d : Toml.Document} {v : Toml} (h : declared? d.root = some v) :
    ∃ name, found? d.root = some name ∧ d.at? (versionPath name) = some v := by
  obtain ⟨name, hfind, hv⟩ := exists_find?_of_findSome? h
  refine ⟨name, hfind, ?_⟩
  obtain ⟨w, hw, hv⟩ := Option.bind_eq_some_iff.1 hv
  cases w with
  | table o t =>
    show (Toml.Table.get? name d.root).bind _ = some v
    rw [hw]
    show (Toml.Table.get? "version" t).bind _ = some v
    rw [show Toml.Table.get? "version" t = some v from hv]
    rfl
  | _ => cases hv

/-! ## §2. What a bumped manifest says. -/

/-- **A bump changes what the manifest says behind one path**, the one to the version that
was found. -/
theorem exists_of_bumped_path {bump : Bump} {s t : Text} {change : VersionChange}
    (h : bumped bump s = .ok (change, t)) :
    ∃ d d' name, Toml.Document.read? s = some d ∧ Toml.Document.read? t = some d'
      ∧ found? d.root = some name
      ∧ (d.at? (versionPath name)).map Toml.text = some change.old
      ∧ ∀ path, d'.kindAt? path
          = if path = versionPath name then some (.scalar (.string change.new))
            else d.kindAt? path := by
  obtain ⟨d, as, old, bs, root, hd, -, -, -, hread, halike, hdecl⟩ := exists_of_bumped h
  obtain ⟨d₁, v, hd₁, hv, -, hold, -⟩ := bumped_eq_ok h
  rw [hd] at hd₁
  cases hd₁
  -- The declared value is the scalar that is set.
  obtain ⟨y, rfl⟩ := exists_scalar_of_alike halike hv hdecl
  obtain ⟨name, hfound, hat⟩ := exists_found_of_declared? hv
  refine ⟨d, ⟨_, root⟩, name, hd, hread, hfound, ?_, fun path => ?_⟩
  · rw [hat, hold]
    rfl
  · have hone : Toml.countAt as.length (.table .opened d.root) ≤ 1 :=
      Toml.countUnder_table? (Toml.Document.read?_eq_some.1 hd).2 as.length
    have hroot : Toml.Alike False as.length (.string change.new) (.table .opened d.root)
        (.table .opened root) := .table halike
    exact Toml.kind_at?_of_alike hroot hone hat path

/-! ## §3. One bump behind the other. -/

variable {c : Config} {s : Site} {bump : Bump} {change : VersionChange}

/-- The manifest can be read and written, and it declares the release `w` in its canonical
form. -/
structure Declares (c : Config) (w : Version) (s : Site) : Prop where
  plain : w.IsPlain
  text : ∃ l t, s.tree.Holds s.here c.manifestPath l (Text.encode t) ∧ '\r' ∉ t
    ∧ declaredVersion t = .ok w.text

/-- A manifest that declares a release can be bumped to the next one. -/
theorem exists_bumped_of_declared {t : Text} {w : Version} (hw : w.IsPlain)
    (h : declaredVersion t = .ok w.text) (bump : Bump) :
    ∃ u, bumped bump t = .ok (⟨w.text, (bump.next w).text⟩, u) := by
  have hnext : bump.nextText w.text = .ok (bump.next w).text := by
    unfold Bump.nextText Version.lenient
    rw [Version.read?_text hw.wellFormed]
    rfl
  unfold declaredVersion at h
  unfold bumped
  cases hd : Toml.Document.read? t with
  | none =>
    rw [hd] at h
    cases h
  | some d =>
    rw [hd] at h
    cases hv : declared? d.root with
    | none =>
      simp only [hv] at h
      cases h
    | some v =>
      simp only [hv] at h
      have htext : v.text = w.text := Except.ok.inj h
      simp only [hv, htext, hnext]
      exact ⟨_, rfl⟩

/-- **One bump leads to the next release.** -/
theorem Declares.next {w : Version} (h : Declares c w s) (bump : Bump) :
    ∃ s', Job.on (bumpVersion c bump) s = (.ok ⟨w.text, (bump.next w).text⟩, s')
      ∧ Declares c (bump.next w) s' := by
  obtain ⟨l, t, hl, hr, hd⟩ := h.text
  obtain ⟨u, hu⟩ := exists_bumped_of_declared h.plain hd bump
  have htext : s.textAt c.manifestPath = .ok t := by
    rw [Site.textAt_of_holds hl, Text.unified_eq_self hr]
  refine ⟨_, on_bumpVersion hl htext hu, Version.isPlain_next bump w, ?_⟩
  exact ⟨l, u, hl.put _, return_notMem_bumped hr hu, declaredVersion_bumped hu⟩

/-- **Bumps go on**, each from the version that the one before has written. -/
theorem Declares.bumps {w : Version} (h : Declares c w s) (hnew : change.new = w.text)
    (bumps : List Bump) :
    ∃ changes, (Job.on (bumps.mapM (bumpVersion c)) s).1 = .ok changes
      ∧ changes.length = bumps.length
      ∧ (change :: changes).IsChain (fun a b => b.old = a.new) := by
  induction bumps generalizing w s change with
  | nil => exact ⟨[], rfl, rfl, .singleton change⟩
  | cons bump bumps ih =>
    obtain ⟨s', hs', hnext⟩ := h.next bump
    have hwritten : (VersionChange.mk w.text (bump.next w).text).new = (bump.next w).text := rfl
    obtain ⟨changes, hok, hlen, hchain⟩ := ih hnext hwritten
    refine ⟨⟨w.text, (bump.next w).text⟩ :: changes, ?_, congrArg Nat.succ hlen,
      .cons_cons hnew.symm hchain⟩
    rw [List.mapM_cons, Job.on_bind_ok hs']
    rcases hm : Job.on (bumps.mapM (bumpVersion c)) s' with ⟨r, s''⟩
    rw [hm] at hok
    cases hok
    rw [Job.on_bind_ok hm]
    rfl

/-- A bump leaves a manifest that declares the new version. -/
theorem declares_of_bumpVersion {l : Location} {b : Bytes} {t u : Text}
    (hl : s.tree.Holds s.here c.manifestPath l b) (ht : s.textAt c.manifestPath = .ok t)
    (hb : bumped bump t = .ok (change, u)) :
    ∃ w : Version, change.new = w.text ∧ Declares c w (Job.on (bumpVersion c bump) s).2 := by
  obtain ⟨-, v, -, -, hn, -, -⟩ := bumped_eq_ok hb
  obtain ⟨w, hw, hplain⟩ : ∃ w : Version, change.new = w.text ∧ w.IsPlain := by
    obtain ⟨w, -, hw⟩ := Bump.exists_of_nextText hn
    exact ⟨bump.next w, hw, Version.isPlain_next bump w⟩
  refine ⟨w, hw, hplain, l, u, ?_, return_notMem_bumped (Site.return_notMem_of_textAt ht) hb, ?_⟩
  · rw [on_bumpVersion hl ht hb]
    exact hl.put _
  · rw [declaredVersion_bumped hb, hw]

/-- **A bump changes the meaning of the manifest in one place, and reads back.** -/
theorem bumpVersion_meaning (h : (Job.on (bumpVersion c bump) s).1 = .ok change) :
    (Job.on (readVersion c) s).1 = .ok change.old
      ∧ (∃ t u d d' name, s.textAt c.manifestPath = .ok t
        ∧ (Job.on (bumpVersion c bump) s).2.textAt c.manifestPath = .ok u
        ∧ Toml.Document.read? t = some d ∧ Toml.Document.read? u = some d'
        ∧ found? d.root = some name
        ∧ (d.at? (versionPath name)).map Toml.text = some change.old
        ∧ ∀ path, d'.kindAt? path
            = if path = versionPath name then some (.scalar (.string change.new))
              else d.kindAt? path)
      ∧ (Job.on (readVersion c) (Job.on (bumpVersion c bump) s).2).1 = .ok change.new
      ∧ ∀ bumps : List Bump, ∃ changes,
          (Job.on (bumps.mapM (bumpVersion c)) (Job.on (bumpVersion c bump) s).2).1 = .ok changes
          ∧ changes.length = bumps.length
          ∧ (change :: changes).IsChain (fun a b => b.old = a.new) := by
  obtain ⟨t, u, ht, hb⟩ := exists_of_bumpVersion h
  obtain ⟨l, b, hl, -⟩ := Site.exists_holds_of_textAt ht
  have hu := textAt_on_bumpVersion ht hb
  obtain ⟨d, d', name, hd, hd', hfound, hold, hkinds⟩ := exists_of_bumped_path hb
  obtain ⟨w, hw, hdeclares⟩ := declares_of_bumpVersion hl ht hb
  refine ⟨?_, ⟨t, u, d, d', name, ht, hu, hd, hd', hfound, hold, hkinds⟩, ?_, ?_⟩
  · obtain ⟨d₁, v, hd₁, hv, -, hold, -⟩ := bumped_eq_ok hb
    rw [on_readVersion, ht]
    show declaredVersion t = _
    unfold declaredVersion
    simp only [hd₁, hv, hold]
  · rw [on_readVersion, hu]
    exact declaredVersion_bumped hb
  · exact fun bumps => hdeclares.bumps hw bumps

/-! ## §4. A manifest. -/

/-- Its package has no version of its own, so that of the project is found. -/
def projectManifest : Text :=
  "[package]\nname = \"p\"\n[project]\nversion = 1.5 # a number\n[deps]\nversion = \"1.5\"\n"

def projectSite : Site := .withManifest projectManifest

theorem meaning_of_projectSite :
    (Job.on (bumpVersion {} .patch) projectSite).1 = .ok ⟨"1.5", "1.5.1"⟩
      ∧ (∃ t u d d', projectSite.textAt (Config.manifestPath {}) = .ok t
        ∧ (Job.on (bumpVersion {} .patch) projectSite).2.textAt (Config.manifestPath {}) = .ok u
        ∧ Toml.Document.read? t = some d ∧ Toml.Document.read? u = some d'
        ∧ found? d.root = some "project"
        ∧ d'.kindAt? [.key "deps", .key "version"] = d.kindAt? [.key "deps", .key "version"]
        ∧ d'.kindAt? [.key "project", .key "version"] = some (.scalar (.string "1.5.1")))
      ∧ ∃ changes, (Job.on ([Bump.minor, .patch].mapM (bumpVersion {}))
          (Job.on (bumpVersion {} .patch) projectSite).2).1 = .ok changes
        ∧ changes.length = 2 := by
  have h : (Job.on (bumpVersion {} .patch) projectSite).1 = .ok ⟨"1.5", "1.5.1"⟩ :=
    eq_ok_of_toOption (by decide +kernel)
  obtain ⟨-, ⟨t, u, d, d', name, ht, hu, hd, hd', hfound, -, hkinds⟩, -, hbumps⟩ :=
    bumpVersion_meaning h
  obtain rfl : name = "project" := by
    have hname : ((projectSite.textAt (Config.manifestPath {})).toOption.bind
        Toml.Document.read?).bind (fun d => found? d.root) = some "project" := by decide +kernel
    rw [ht] at hname
    simp only [Except.toOption, Option.bind_some, hd, hfound] at hname
    exact Option.some.inj hname
  obtain ⟨changes, hok, hlen, -⟩ := hbumps [.minor, .patch]
  refine ⟨h, ⟨t, u, d, d', ht, hu, hd, hd', hfound, ?_, ?_⟩, changes, hok, hlen⟩
  · rw [hkinds, if_neg (by decide +kernel)]
  · exact (hkinds _).trans (if_pos rfl)

end Repin.Manifest
