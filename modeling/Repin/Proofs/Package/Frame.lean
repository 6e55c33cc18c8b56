/-
  Repin.Proofs.Package.Frame
  ──────────────────────────
  **PACKAGING TOUCHES ITS TWO FILES AND NO OTHER.**

  Whatever the files are and wherever the build output lies, packaging writes the copy of
  the build output and, if there is a version to stamp, the descriptor (`confined_make`).
  The copy is made before the descriptor is read, so a descriptor that cannot be stamped
  leaves the copy behind; the descriptor itself is written last and only if nothing fails.
  What a link at one of these places or a write that breaks off half way would do is not
  said: a `Tree` has neither.
-/
import Repin.Proofs.Package.Stages

namespace Repin
namespace Package

/-! ## §1. The same file. -/

/-- The same file is at the location, or none in both. -/
def SameFile (t u : Tree) (l : Location) : Prop :=
  ∀ b, u.get? l = some (.file b) ↔ t.get? l = some (.file b)

variable {here l m : Location} {t u v : Tree} {dist build : Path}

theorem sameFile_of_grows (h : t.Grows u) (l : Location) : SameFile t u l := h.file_iff l

theorem SameFile.trans (h : SameFile t u l) (h' : SameFile u v l) : SameFile t v l :=
  fun b => (h' b).trans (h b)

theorem sameFile_put (h : m ≠ l) (b : Bytes) : SameFile t (t.put l (.file b)) m := by
  intro c
  rw [Tree.get?_put_of_ne h]

/-! ## §2. What is left alone. -/

/-- What packaging leaves alone and what it leaves behind, from the files before to the site
after it. -/
structure Confined (s : Site) (build dist : Path) (version : Option Text)
    (r : Except Fault Path) (after : Site) : Prop where
  /-- Every path leads where it led. -/
  ways : ∀ p l, s.tree.locate s.here p = .ok l → after.tree.locate s.here p = .ok l
  /-- Of the files, at most the two change, the descriptor only for a version. -/
  others : ∀ l, after.tree.locate s.here (dist.sub pluginFile) ≠ .ok l →
    (version = none ∨ after.tree.locate s.here (dist.sub descriptorFile) ≠ .ok l) →
    SameFile s.tree after.tree l
  /-- On success the copy holds what the build output held. -/
  success : ∀ p, r = .ok p → p = dist.sub pluginFile
    ∧ ∃ b, s.tree.read s.here build = .ok b
      ∧ after.tree.read s.here (dist.sub pluginFile) = .ok b
  /-- Without a version, and on every failure, the descriptor is the same. -/
  descriptor : (version = none ∨ ∃ f, r = .error f) →
    ∀ l, after.tree.locate s.here (dist.sub descriptorFile) = .ok l → SameFile s.tree after.tree l
  /-- On failure the place of the copy is as before, or it was the stamping that failed, behind
  a copy that holds what the build output held. -/
  failure : ∀ f, r = .error f →
    (∀ l, after.tree.locate s.here (dist.sub pluginFile) = .ok l → SameFile s.tree after.tree l)
    ∨ ∃ b v mid, s.tree.read s.here build = .ok b
        ∧ after.tree.read s.here (dist.sub pluginFile) = .ok b
        ∧ version = some v
        ∧ Job.on (copied build dist) s = (.ok (dist.sub pluginFile), mid)
        ∧ Job.on (setVersion (dist.sub descriptorFile) v) mid = (.error f, after)
  /-- Without a build output nothing is made or changed. -/
  missing : s.tree.isFile s.here build = false →
    r = .error (.buildMissing build) ∧ after.tree = s.tree

variable {s : Site} {log : List Event} {version : Option Text}

/-- Without a copy, nothing but directories has been made. -/
theorem confined_of_uncopied {f : Fault} (h : Copies s build dist (.error f) u) :
    Confined s build dist version (.error f) { s with tree := u, log } := by
  have hgrows : s.tree.Grows u := by
    cases h with
    | missing _ => exact .refl _
    | unmade _ he => exact (Tree.of_ensured he).1
    | same _ he _ => exact (Tree.of_ensured he).1
    | occupied _ he _ => exact (Tree.of_ensured he).1
  exact {
    ways := fun p l => Tree.locate_of_directories hgrows.directories
    others := fun l _ _ => sameFile_of_grows hgrows l
    success := nofun
    descriptor := fun _ l _ => sameFile_of_grows hgrows l
    failure := fun g _ => .inl (fun l _ => sameFile_of_grows hgrows l)
    missing := h.eq_of_missing }

/-- The files with the copy, from the files before. -/
structure Copied (s : Site) (build dist : Path) (l : Location) (b : Bytes) (u : Tree) : Prop where
  build : s.tree.read s.here build = .ok b
  directories : Tree.Directories s.tree u
  copy : u.Holds s.here (dist.sub pluginFile) l b
  others : ∀ m, m ≠ l → SameFile s.tree u m

theorem exists_copied {target : Path} (h : Copies s build dist (.ok target) u) :
    target = dist.sub pluginFile ∧ ∃ l b, Copied s build dist l b u := by
  cases h with
  | copied hread he hl hn =>
    next t l b =>
    have hgrows := (Tree.of_ensured he).1
    refine ⟨rfl, l, b, hread, ?_, Tree.holds_put hl hn b, ?_⟩
    · exact fun m hm => Tree.directories_put hn b m (hgrows.directories m hm)
    · exact fun m hm => (sameFile_of_grows hgrows m).trans (sameFile_put hm b)

theorem Copied.isFile {b : Bytes} (h : Copied s build dist l b u) :
    s.tree.isFile s.here build = true := Tree.isFile_iff.2 ⟨b, h.build⟩

/-- A copy without a stamp, or with one that failed. -/
theorem confined_of_copied {b : Bytes} {r : Except Fault Path} (h : Copied s build dist l b u)
    (hr : ∀ p, r = .ok p → p = dist.sub pluginFile)
    (hfailure : ∀ f, r = .error f → ∃ v mid, version = some v
      ∧ Job.on (copied build dist) s = (.ok (dist.sub pluginFile), mid)
      ∧ Job.on (setVersion (dist.sub descriptorFile) v) mid
        = (.error f, { s with tree := u, log })) :
    Confined s build dist version r { s with tree := u, log } where
  ways p l := Tree.locate_of_directories h.directories
  others m hm _ := h.others m (fun he => hm (he ▸ h.copy.locate))
  success p hp := ⟨hr p hp, b, h.build, h.copy.read⟩
  descriptor _ m hm := h.others m (location_ne h.copy.locate hm)
  failure f hf := by
    obtain ⟨v, mid, hv, hmid, hset⟩ := hfailure f hf
    exact .inr ⟨b, v, mid, h.build, h.copy.read, hv, hmid, hset⟩
  missing hno := by
    rw [h.isFile] at hno
    cases hno

/-- A copy and a stamped descriptor. -/
theorem confined_of_stamped {b a : Bytes} {v : Text} {ms : Json.Members}
    (h : Copied s build dist l b u) (hm : u.Holds s.here (dist.sub descriptorFile) m a) :
    Confined s build dist (some v) (.ok (dist.sub pluginFile))
      { s with tree := u.put m (.file (stampedBytes v ms)), log } := by
  have hn : u.get? m ≠ some .directory := by
    rw [hm.content]
    exact nofun
  have hdirectories := Tree.directories_put hn (stampedBytes v ms)
  have hplugin := Tree.locate_of_directories hdirectories h.copy.locate
  have hdescriptor := Tree.locate_of_directories hdirectories hm.locate
  have hne : l ≠ m := (location_ne h.copy.locate hm.locate).symm
  exact {
    ways := fun p k hk =>
      Tree.locate_of_directories hdirectories (Tree.locate_of_directories h.directories hk)
    others := by
      rintro k hk (hv | hk')
      · cases hv
      · have hkl : k ≠ l := fun he => hk (he ▸ hplugin)
        have hkm : k ≠ m := fun he => hk' (he ▸ hdescriptor)
        exact (h.others k hkl).trans (sameFile_put hkm _)
    success := by
      rintro p ⟨⟩
      refine ⟨rfl, b, h.build, ?_⟩
      exact (Tree.read_put h.copy.locate hn hne _).trans h.copy.read
    descriptor := by
      rintro (hv | ⟨f, hf⟩)
      · cases hv
      · cases hf
    failure := nofun
    missing := by
      intro hno
      rw [h.isFile] at hno
      cases hno }

/-- **Packaging touches its two files and no other**, and leaves the descriptor as it is unless
it succeeds with a version. -/
theorem confined_make (build dist : Path) (version : Option Text) (s : Site) :
    Confined s build dist version (Job.on (make build dist version) s).1
      (Job.on (make build dist version) s).2 := by
  obtain ⟨r, u, log, hcopies, hon⟩ := exists_copies s build dist
  rw [make_eq]
  cases r with
  | error f =>
    rw [Job.on_bind_error hon]
    exact confined_of_uncopied hcopies
  | ok target =>
    obtain ⟨rfl, l, b, hcopied⟩ := exists_copied hcopies
    rw [Job.on_bind_ok hon]
    cases version with
    | none => exact confined_of_copied hcopied (fun p hp => by cases hp; rfl) nofun
    | some v =>
      obtain ⟨r, w, -, hstamps, hset⟩ :=
        exists_readsAs (dist.sub descriptorFile) v { s with tree := u, log }
      cases r with
      | error f =>
        obtain rfl : w = u := hstamps
        rw [on_concluded_error _ hset]
        refine confined_of_copied hcopied nofun ?_
        rintro g ⟨⟩
        exact ⟨v, _, rfl, hon, hset⟩
      | ok ms =>
        obtain ⟨m, a, hm, rfl⟩ := hstamps
        obtain ⟨log', hconcluded⟩ := on_concluded_ok (dist.sub pluginFile) hset
        rw [hconcluded]
        exact confined_of_stamped hcopied hm

end Package
end Repin
