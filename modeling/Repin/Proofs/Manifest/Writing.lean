/-
  Repin.Proofs.Manifest.Writing
  ─────────────────────────────
  **THE TWO WRITES OF THE MANIFEST.**

  A manifest that could be read can be written, and what was written is read again
  as it stands: a bumped manifest holds no carriage return, because the text that was
  read holds none and a version is written with digits and dots.  So neither the
  reading between the two writes nor the second write can fail:

    • `on_bumpVersion` — the first write, `on_bumpVersion_error` — its failures,
    • `on_replaceAll` — the second write.
-/
import Repin.Manifest
import Repin.Proofs.Job
import Repin.Proofs.Text.Encoding
import Repin.Proofs.Text.Lines
import Repin.Proofs.Version.Text

namespace Repin

/-! ## §1. Reading what was written. -/

theorem Site.textAt_of_holds {s : Site} {p : Path} {l : Location} {t : Text}
    (h : s.tree.Holds s.here p l (Text.encode t)) : s.textAt p = .ok (Text.unified t) := by
  unfold Site.textAt
  simp only [h.read, Text.decode?_encode]

/-- A text that can be read is that of a file to which the path leads. -/
theorem Site.exists_holds_of_textAt {s : Site} {p : Path} {t : Text} (h : s.textAt p = .ok t) :
    ∃ l b, s.tree.Holds s.here p l b ∧ (Text.decode? b).map Text.unified = some t := by
  unfold Site.textAt at h
  split at h
  · cases h
  · next b hb =>
    obtain ⟨l, hl⟩ := Tree.read_eq_ok_iff.1 hb
    split at h
    · next u hu =>
      cases h
      exact ⟨l, b, hl, by rw [hu]; rfl⟩
    · cases h

theorem Site.return_notMem_of_textAt {s : Site} {p : Path} {t : Text} (h : s.textAt p = .ok t) :
    '\r' ∉ t := by
  obtain ⟨-, b, -, hb⟩ := Site.exists_holds_of_textAt h
  obtain ⟨u, -, rfl⟩ := Option.map_eq_some_iff.1 hb
  exact Text.return_notMem_unified u

/-! ## §2. The characters of a bumped manifest. -/

/-- Setting a token brings in the characters of its spelling only. -/
theorem Toml.mem_of_mem_spelled_set {ts : List Toml.Token} {n : Nat} {t : Toml.Token} {c : Char}
    (h : c ∈ Toml.spelled (ts.set n t)) : c ∈ Toml.spelled ts ∨ c ∈ t.spelling := by
  unfold Toml.spelled at h ⊢
  obtain ⟨u, hu, hc⟩ := List.mem_flatMap.1 h
  rcases List.mem_or_eq_of_mem_set hu with hm | rfl
  · exact .inl (List.mem_flatMap.2 ⟨u, hm, hc⟩)
  · exact .inr hc

namespace Manifest

theorem bumped_eq_ok {bump : Bump} {s t : Text} {change : VersionChange}
    (h : bumped bump s = .ok (change, t)) :
    ∃ d v, Toml.Document.read? s = some d ∧ declared? d.root = some v
      ∧ bump.nextText v.text = .ok change.new ∧ change.old = v.text
      ∧ t = withVersion d v change.new := by
  unfold bumped at h
  split at h
  · cases h
  · next d hd =>
    split at h
    · cases h
    · next v hv =>
      split at h
      · cases h
      · next new hn =>
        cases h
        exact ⟨d, v, hd, hv, hn, rfl, rfl⟩

/-- A bump fails without a version, without a document or with something else than a version. -/
theorem bumped_error_cases {bump : Bump} {s : Text} {f : Fault} (h : bumped bump s = .error f) :
    f = .versionMissing ∨ (Toml.Document.read? s = none ∧ f = .notToml)
      ∨ ∃ d v r, Toml.Document.read? s = some d ∧ declared? d.root = some v
        ∧ Version.lenient v.text = .error r ∧ f = .refused r := by
  unfold bumped at h
  split at h
  · next hd =>
    cases h
    exact .inr (.inl ⟨hd, rfl⟩)
  · next d hd =>
    split at h
    · cases h
      exact .inl rfl
    · next v hv =>
      unfold Bump.nextText at h
      cases hl : Version.lenient v.text with
      | error r =>
        rw [hl] at h
        cases h
        exact .inr (.inr ⟨d, v, r, hd, hv, hl, rfl⟩)
      | ok w =>
        rw [hl] at h
        cases h

theorem mem_of_mem_withVersion {d : Toml.Document} {v : Toml} {new : Text} {c : Char}
    (h : c ∈ withVersion d v new) : c ∈ d.text ∨ c = '"' ∨ c ∈ new := by
  unfold withVersion at h
  split at h
  · unfold Toml.Document.textWith at h
    rcases Toml.mem_of_mem_spelled_set h with h | h
    · exact .inl h
    · simp only [Toml.Token.spelling, Toml.Quote.mark, List.mem_append] at h
      rcases h with (h | h) | h
      · exact .inr (.inl (by simpa using h))
      · exact .inr (.inr h)
      · exact .inr (.inl (by simpa using h))
  · exact .inl h

/-- Bumping brings in quotes, digits and dots only. -/
theorem return_notMem_bumped {bump : Bump} {s t : Text} {change : VersionChange}
    (hs : '\r' ∉ s) (h : bumped bump s = .ok (change, t)) : '\r' ∉ t := by
  obtain ⟨d, v, hd, -, hn, -, rfl⟩ := bumped_eq_ok h
  intro hc
  rcases mem_of_mem_withVersion hc with hc | hc | hc
  · rw [Toml.Document.text_of_read? hd] at hc
    exact hs hc
  · exact absurd hc (by decide)
  · rcases Bump.isDigit_or_dot_of_mem_nextText hn _ hc with hc | hc
    · exact absurd hc (by decide)
    · exact absurd hc (by decide)

/-! ## §3. The two writes. -/

variable {c : Config} {s : Site} {l : Location} {b : Bytes} {t : Text}

theorem on_bumpVersion {bump : Bump} {change : VersionChange} {u : Text}
    (h : s.tree.Holds s.here c.manifestPath l b) (ht : s.textAt c.manifestPath = .ok t)
    (hb : bumped bump t = .ok (change, u)) :
    Job.on (bumpVersion c bump) s
      = (.ok change, { s with tree := s.tree.put l (.file (Text.encode u)) }) := by
  unfold bumpVersion Manifest.read
  simp only [Job.on_bind, Job.on_readText, ht, hb, Job.on_ofExcept_ok,
    Job.on_writeText_ok (h.write (Text.encode u)), Job.on_pure]

theorem on_bumpVersion_error {bump : Bump} {f : Fault} (ht : s.textAt c.manifestPath = .ok t)
    (hb : bumped bump t = .error f) : Job.on (bumpVersion c bump) s = (.error f, s) := by
  unfold bumpVersion Manifest.read
  simp only [Job.on_bind, Job.on_readText, ht, hb, Job.on_ofExcept_error, id]

/-- The manifest could be read and bumped if its version was bumped. -/
theorem exists_of_bumpVersion {bump : Bump} {change : VersionChange}
    (h : (Job.on (bumpVersion c bump) s).1 = .ok change) :
    ∃ t u, s.textAt c.manifestPath = .ok t ∧ bumped bump t = .ok (change, u) := by
  cases ht : s.textAt c.manifestPath with
  | error f =>
    unfold bumpVersion Manifest.read at h
    rw [Job.on_bind, Job.on_readText, ht] at h
    cases h
  | ok t =>
    cases hb : bumped bump t with
    | error f =>
      rw [on_bumpVersion_error ht hb] at h
      cases h
    | ok p =>
      obtain ⟨change', u⟩ := p
      obtain ⟨l, b, hl, -⟩ := Site.exists_holds_of_textAt ht
      rw [on_bumpVersion hl ht hb] at h
      cases h
      exact ⟨t, u, rfl, hb⟩

/-- What a bump writes is read again as it stands. -/
theorem textAt_on_bumpVersion {bump : Bump} {change : VersionChange} {u : Text}
    (ht : s.textAt c.manifestPath = .ok t) (hb : bumped bump t = .ok (change, u)) :
    (Job.on (bumpVersion c bump) s).2.textAt c.manifestPath = .ok u := by
  obtain ⟨l, b, hl, -⟩ := Site.exists_holds_of_textAt ht
  have hr := return_notMem_bumped (Site.return_notMem_of_textAt ht) hb
  rw [on_bumpVersion hl ht hb, Site.textAt_of_holds (hl.put _), Text.unified_eq_self hr]

theorem on_replaceAll (h : s.tree.Holds s.here c.manifestPath l b)
    (ht : s.textAt c.manifestPath = .ok t) (old new : Text) :
    Job.on (replaceAll c old new) s = (.ok (Text.occurrences old t),
      { s with tree := s.tree.put l (.file (Text.encode (Text.replaced old new t))) }) := by
  unfold replaceAll Manifest.read
  simp only [Job.on_bind, Job.on_readText, ht,
    Job.on_writeText_ok (h.write (Text.encode (Text.replaced old new t))), Job.on_pure]

/-! ## §4. Reading the version. -/

theorem on_readVersion (c : Config) (s : Site) :
    (Job.on (readVersion c) s).1
      = (s.textAt c.manifestPath).bind declaredVersion := by
  unfold readVersion Manifest.read
  rw [Job.on_bind, Job.on_readText]
  cases s.textAt c.manifestPath with
  | error f => rfl
  | ok t => exact Job.on_ofExcept_id_fst _ _

end Manifest
end Repin
