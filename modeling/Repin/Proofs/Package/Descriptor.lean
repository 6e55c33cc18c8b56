/-
  Repin.Proofs.Package.Descriptor
  ───────────────────────────────
  **WHAT A DESCRIPTOR MAKES OF PACKAGING.**

  When the build output can be copied, the content of the descriptor alone decides how
  packaging with a version ends (`make_of_ready`):

    • an object            — the version is stamped into it,
    • no file, or no JSON  — the fault tells that the descriptor cannot be read,
    • anything else        — that is, no UTF-8, or JSON that is no object: the fault is
                             none of packaging, so whoever handles those lets it pass.

  Not every content is told of, then (`foreign_not_told`).
-/
import Repin.Proofs.Package.Stages

namespace Repin
namespace Package

/-! ## §1. Ready for the copy. -/

/-- The build output can be copied: it is a file, the directory of the package is there or can
be made, and in the files behind that the place of the copy is no directory and not the build
output itself. -/
structure Ready (s : Site) (build dist : Path) (t : Tree) : Prop where
  output : s.tree.isFile s.here build = true
  made : s.tree.ensured s.here dist = (t, none)
  free : t.isDirectory s.here (dist.sub pluginFile) = false
  other : t.isSame s.here build (dist.sub pluginFile) = false

variable {s : Site} {build dist : Path} {t : Tree} {version : Text}

/-- The copy is made, and the descriptor is found behind it as it was before. -/
theorem Ready.exists_copied (h : Ready s build dist t) :
    ∃ u log, Job.on (copied build dist) s = (.ok (dist.sub pluginFile), { s with tree := u, log })
      ∧ u.read s.here (dist.sub descriptorFile) = t.read s.here (dist.sub descriptorFile) := by
  have hthere : t.isDirectory s.here dist = true := (Tree.of_ensured h.made).2 rfl
  obtain ⟨r, u, log, hcopies, hon⟩ := exists_copies s build dist
  cases hcopies with
  | missing hfile =>
    rw [h.output] at hfile
    cases hfile
  | unmade hfile he =>
    rw [h.made] at he
    cases he
  | same hfile he hsame =>
    rw [h.made] at he
    cases he
    rw [h.other] at hsame
    cases hsame
  | occupied hfile he hdirectory =>
    rw [h.made] at he
    cases he
    rw [h.free] at hdirectory
    cases hdirectory
  | copied hread he hl hn =>
    rw [h.made] at he
    cases he
    obtain ⟨m, hm⟩ := exists_locate_of_isDirectory isName_descriptorFile hthere
    exact ⟨_, log, hon, Tree.read_put hm hn (location_ne hl hm) _⟩

/-- No path inside a directory that is there is refused. -/
theorem Ready.read_ne_unusable (h : Ready s build dist t) :
    t.read s.here (dist.sub descriptorFile) ≠ .error .unusable := by
  obtain ⟨m, hm⟩ :=
    exists_locate_of_isDirectory isName_descriptorFile ((Tree.of_ensured h.made).2 rfl)
  unfold Tree.read
  rw [hm]
  cases hn : t.get? m with
  | none => simp [hn]
  | some n => cases n <;> simp [hn]

/-! ## §2. What is told of a descriptor. -/

/-- The fault is one of packaging. -/
def isPackaging : Fault → Bool
  | .buildMissing _ => true
  | .descriptorUnreadable .. => true
  | _ => false

/-- The content is no UTF-8, or it is JSON but no object. -/
def IsForeign (b : Bytes) : Prop :=
  Text.decode? b = none
    ∨ ∃ t v, Text.decode? b = some t ∧ Json.ofDocument (Text.unified t) = .ok v
        ∧ ∀ ms, v ≠ .object ms

/-- **A fault is none of packaging exactly for a foreign content.** -/
theorem foreign_iff {p : Path} {c : Except FileError Bytes} {r : Except Fault Json.Members}
    (h : ReadsAs p c r) (hc : c ≠ .error .unusable) :
    (∃ f, r = .error f ∧ isPackaging f = false) ↔ ∃ b, c = .ok b ∧ IsForeign b := by
  cases h with
  | unusable => exact absurd rfl hc
  | absent _ => simp [isPackaging]
  | notUtf8 hb => exact ⟨fun _ => ⟨_, rfl, .inl hb⟩, fun _ => ⟨_, rfl, rfl⟩⟩
  | notJson hb hf =>
    refine ⟨by simp [isPackaging], ?_⟩
    rintro ⟨b, ⟨⟩, hn | ⟨t, v, ht, hv, -⟩⟩
    · rw [hb] at hn
      cases hn
    · rw [hb] at ht
      cases ht
      rw [hf] at hv
      cases hv
  | notObject hb hv hno =>
    exact ⟨fun _ => ⟨_, rfl, .inr ⟨_, _, hb, hv, hno⟩⟩, fun _ => ⟨_, rfl, rfl⟩⟩
  | object hb hv =>
    refine ⟨by simp, ?_⟩
    rintro ⟨b, ⟨⟩, hn | ⟨t, v, ht, hw, hno⟩⟩
    · rw [hb] at hn
      cases hn
    · rw [hb] at ht
      cases ht
      rw [hv] at hw
      cases hw
      exact absurd rfl (hno _)

/-! ## §3. Packaging with a version. -/

/-- **The content of the descriptor decides how packaging with a version ends.**  An object is
stamped; of the faults, those of a foreign content, and no others, are none of packaging. -/
theorem make_of_ready (h : Ready s build dist t) (version : Text) :
    (∃ r, ReadsAs (dist.sub descriptorFile) (t.read s.here (dist.sub descriptorFile)) r
        ∧ (Job.on (make build dist (some version)) s).1 = r.map (fun _ => dist.sub pluginFile)
        ∧ ∀ ms, r = .ok ms →
          (Job.on (make build dist (some version)) s).2.tree.read s.here (dist.sub descriptorFile)
            = .ok (stampedBytes version ms))
      ∧ ((∃ f, (Job.on (make build dist (some version)) s).1 = .error f ∧ isPackaging f = false)
        ↔ ∃ b, t.read s.here (dist.sub descriptorFile) = .ok b ∧ IsForeign b) := by
  obtain ⟨u, log, hcopied, hread⟩ := h.exists_copied
  obtain ⟨r, w, hr, hstamps, hset⟩ :=
    exists_readsAs (dist.sub descriptorFile) version { s with tree := u, log }
  dsimp only at hr hstamps
  rw [hread] at hr
  have hforeign := foreign_iff hr h.read_ne_unusable
  rw [make_eq, Job.on_bind_ok hcopied]
  cases r with
  | error f =>
    rw [on_concluded_error _ hset]
    refine ⟨⟨_, hr, rfl, nofun⟩, ?_⟩
    simpa using hforeign
  | ok ms =>
    obtain ⟨m, b, hm, rfl⟩ := hstamps
    obtain ⟨log', hconcluded⟩ := on_concluded_ok (dist.sub pluginFile) hset
    rw [hconcluded]
    refine ⟨⟨_, hr, rfl, ?_⟩, ?_⟩
    · rintro _ ⟨⟩
      exact (hm.put _).read
    · simpa using hforeign

/-- A site with a build output and a descriptor of the given content. -/
def packageSite (descriptor : Bytes) : Site :=
  .fresh [(["d".toList], .directory), (["d".toList, "package.json".toList], .file descriptor),
    (["w".toList], .file [0, 97, 115, 109])]

theorem ready_packageSite (descriptor : Bytes) :
    Ready (packageSite descriptor) ⟨0, ["w"]⟩ ⟨0, ["d"]⟩ (packageSite descriptor).tree where
  output := rfl
  made := by
    unfold Tree.ensured
    rfl
  free := rfl
  other := rfl

theorem make_of_packageSite :
    Ready (packageSite [0xFF]) ⟨0, ["w"]⟩ ⟨0, ["d"]⟩ (packageSite [0xFF]).tree
      ∧ ∃ f, (Job.on (make ⟨0, ["w"]⟩ ⟨0, ["d"]⟩ (some "1.0.0")) (packageSite [0xFF])).1 = .error f
          ∧ isPackaging f = false :=
  have hready := ready_packageSite [0xFF]
  ⟨hready, (make_of_ready hready "1.0.0").2.2 ⟨[0xFF], rfl, .inl (by decide +kernel)⟩⟩

/-- Packaging with a version ends with a stamp or with a fault of packaging. -/
def isTold (descriptor : Bytes) : Bool :=
  (errorOf? (Job.on (make ⟨0, ["w"]⟩ ⟨0, ["d"]⟩ (some "1.0.0")) (packageSite descriptor)).1).all
    isPackaging

/-- **Not every descriptor is told of**: not a JSON array, and none that is no UTF-8. -/
theorem foreign_not_told :
    Ready (packageSite (Text.encode "[1]")) ⟨0, ["w"]⟩ ⟨0, ["d"]⟩
        (packageSite (Text.encode "[1]")).tree
      ∧ isTold (Text.encode "[1]") = false ∧ isTold [0xFF] = false :=
  ⟨ready_packageSite _, by decide +kernel, by decide +kernel⟩

end Package
end Repin
