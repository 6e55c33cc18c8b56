/-
  Repin.Proofs.Update.Escaping
  ────────────────────────────
  **FAILURES OF AN UPDATE THAT ARE NOT REPORTED.**

  Some failures of an update are reported as errors of the run, others are passed on as
  they are.  Which ones, is decided before the first write: how the first stage ends is a
  computation on the text of the manifest and the next reply (`on_prepared_fst`), and each
  step of it either reports its failure or lets it escape.

      Escapes c s f  ↔  the run fails with f, and f is not reported

  (`Escapes.on_run`, `isReported_of_run`).  What goes wrong with a command is always
  reported.
-/
import Repin.Proofs.Listing
import Repin.Proofs.Update.Commands

namespace Repin
namespace Update

variable {c : Config} {s : Site} {f : Fault}

/-! ## §1. How the first stage ends. -/

/-- What an update finds out before its tests: the text of the manifest, the pin in it, the
latest release, and the change of the version if there is an update. -/
def findings (c : Config) (s : Site) : Except Fault (Option VersionChange) := do
  let text ← s.textAt c.manifestPath
  let pin ← Manifest.pinned c text
  let latest ← Listing.latestOf c (Job.nextReply s.replies)
  match Bump.between pin latest with
  | none => return none
  | some bump => (Manifest.bumped bump text).map (fun p => some p.1)

/-- **The first stage ends as its findings do.** -/
theorem on_prepared_fst (c : Config) (s : Site) : (Job.on (prepared c) s).1 = findings c s := by
  unfold findings
  have hread := congrArg Prod.fst (on_readPin_manifest c s)
  have hlatest := Listing.on_fetchLatest c s
  cases htext : s.textAt c.manifestPath with
  | error f =>
    rw [htext] at hread
    obtain ⟨t, ht, -⟩ := on_prepared_error (.inl hread)
    rw [ht]
    rfl
  | ok text =>
  rw [htext] at hread
  cases hpin : Manifest.pinned c text with
  | error f =>
    obtain ⟨t, ht, -⟩ := on_prepared_error (.inl (hread.trans hpin))
    rw [ht]
    simp only [bind, Except.bind, hpin]
  | ok pin =>
  have hread : (Job.on (Manifest.readPin c) s).1 = .ok pin := hread.trans hpin
  cases hl : Listing.latestOf c (Job.nextReply s.replies) with
  | error f =>
    obtain ⟨t, ht, -⟩ := on_prepared_error (.inr ⟨⟨pin, hread⟩, hlatest.trans hl⟩)
    rw [ht]
    simp only [bind, Except.bind, hpin]
  | ok latest =>
  obtain ⟨t, ht, htree, hhere⟩ := on_prepared hread (hlatest.trans hl)
  rw [ht]
  have htext' : t.textAt c.manifestPath = .ok text :=
    (Site.SameFiles.textAt_eq ⟨hhere, htree⟩ _).trans htext
  simp only [bind, Except.bind, hpin]
  cases hbetween : Bump.between pin latest with
  | none =>
    rw [on_decided_none hbetween]
    rfl
  | some bump =>
  cases hb : Manifest.bumped bump text with
  | error f =>
    obtain ⟨v, hv, -⟩ := on_decided_error hbetween htext' hb
    simp only [hv, hb]
    rfl
  | ok p =>
    obtain ⟨l, b, hl, -⟩ := Site.exists_holds_of_textAt htext'
    obtain ⟨v, hv, -⟩ := on_decided_some hbetween hl htext' hb
    simp only [hv, hb]
    rfl

/-! ## §2. The failures that escape. -/

/-- The failures of an update that are not reported. -/
inductive Escapes (c : Config) (s : Site) : Fault → Prop
  /-- The manifest cannot be read: there is no such file, or it is not in UTF-8. -/
  | manifest {f : Fault} : s.textAt c.manifestPath = .error f → Escapes c s f
  /-- The address of the host cannot be read, or the token cannot be sent. -/
  | host {pin : Pin} {f : Fault} : (Job.on (Manifest.readPin c) s).1 = .ok pin →
      Listing.host c = .error f → Escapes c s f
  /-- Owner and repository make no address. -/
  | address {pin : Pin} {h : Listing.Host} : (Job.on (Manifest.readPin c) s).1 = .ok pin →
      Listing.host c = .ok h → h.address? c.owner c.repo = none → Escapes c s .badUrl
  /-- A listed name is accepted as a release tag, but its version cannot be read. -/
  | name {pin : Pin} {names : List (List CodePoint)} {r : Refusal} :
      (Job.on (Manifest.readPin c) s).1 = .ok pin →
      (Job.on (Listing.fetchNames c c.owner c.repo) s).1 = .ok names →
      Listing.releases (Listing.pattern c) names = .error r → Escapes c s (.refused r)
  /-- There is an update, but the manifest is no TOML document. -/
  | document {pin : Pin} {latest : Release} {bump : Bump} {text : Text} :
      Moves c s pin latest bump → s.textAt c.manifestPath = .ok text →
      Toml.Document.read? text = none → Escapes c s .notToml
  /-- There is an update, but the declared version is no version. -/
  | version {pin : Pin} {latest : Release} {bump : Bump} {text : Text} {d : Toml.Document}
      {v : Toml} {r : Refusal} : Moves c s pin latest bump → s.textAt c.manifestPath = .ok text →
      Toml.Document.read? text = some d → Manifest.declared? d.root = some v →
      Version.lenient v.text = .error r → Escapes c s (.refused r)

/-! ## §3. Every failure is reported or escapes. -/

/-- Looking for the latest release fails in a way that is reported, or for one of three other
reasons. -/
theorem latestOf_error_cases {reply : Reply} (h : Listing.latestOf c reply = .error f) :
    f.isReported = true ∨ Listing.host c = .error f
      ∨ (∃ host, Listing.host c = .ok host ∧ host.address? c.owner c.repo = none ∧ f = .badUrl)
      ∨ ∃ names r, Listing.namesIn c c.owner c.repo reply = .ok names
        ∧ Listing.releases (Listing.pattern c) names = .error r ∧ f = .refused r := by
  unfold Listing.latestOf Listing.releasesIn at h
  cases hn : Listing.namesIn c c.owner c.repo reply with
  | error g =>
    rw [hn] at h
    cases h
    unfold Listing.namesIn at hn
    cases hh : Listing.host c with
    | error g =>
      rw [hh] at hn
      cases hn
      exact .inr (.inl rfl)
    | ok host =>
      simp only [hh, bind, Except.bind] at hn
      cases ha : host.address? c.owner c.repo with
      | none =>
        simp only [ha] at hn
        cases hn
        exact .inr (.inr (.inl ⟨host, rfl, ha, rfl⟩))
      | some address =>
        simp only [ha] at hn
        exact .inl ((isFinding_of_namesOf hn).1)
  | ok names =>
    simp only [hn, bind, Except.bind] at h
    cases hr : Listing.releases (Listing.pattern c) names with
    | error r =>
      rw [hr] at h
      cases h
      exact .inr (.inr (.inr ⟨names, r, rfl, hr, rfl⟩))
    | ok rs =>
      rw [hr] at h
      exact .inl ((isFinding_of_pick h).1)

/-- **What the first stage fails with is reported or escapes.** -/
theorem reported_or_escapes (h : findings c s = .error f) :
    f.isReported = true ∨ Escapes c s f := by
  unfold findings at h
  have hread := congrArg Prod.fst (on_readPin_manifest c s)
  cases htext : s.textAt c.manifestPath with
  | error g =>
    rw [htext] at h
    cases h
    exact .inr (.manifest htext)
  | ok text =>
  simp only [htext, bind, Except.bind] at h hread
  cases hpin : Manifest.pinned c text with
  | error g =>
    simp only [hpin] at h
    cases h
    exact .inl ((isFinding_of_pinned hpin).1)
  | ok pin =>
  simp only [hpin] at h hread
  cases hlatest : Listing.latestOf c (Job.nextReply s.replies) with
  | error g =>
    simp only [hlatest] at h
    cases h
    rcases latestOf_error_cases hlatest with hr | hh | ⟨host, hh, ha, rfl⟩ | ⟨names, r, hn, hr, rfl⟩
    · exact .inl hr
    · exact .inr (.host hread hh)
    · exact .inr (.address hread hh ha)
    · exact .inr (.name hread ((Listing.on_fetchNames c c.owner c.repo s).trans hn) hr)
  | ok latest =>
  simp only [hlatest] at h
  cases hbetween : Bump.between pin latest with
  | none =>
    rw [hbetween] at h
    cases h
  | some bump =>
    have hmoves : Moves c s pin latest bump :=
      ⟨hread, (Listing.on_fetchLatest c s).trans hlatest, hbetween⟩
    simp only [hbetween] at h
    cases hb : Manifest.bumped bump text with
    | ok p =>
      rw [hb] at h
      cases h
    | error g =>
      rw [hb] at h
      cases h
      rcases Manifest.bumped_error_cases hb with rfl | ⟨hd, rfl⟩ | ⟨d, v, r, hd, hv, hl, rfl⟩
      · exact .inl rfl
      · exact .inr (.document hmoves htext hd)
      · exact .inr (.version hmoves htext hd hv hl)

/-! ## §4. What escapes ends the run. -/

/-- What escapes is not reported. -/
theorem Escapes.not_isReported (h : Escapes c s f) : f.isReported = false := by
  cases h with
  | manifest h => exact not_isReported_of_textAt h
  | host _ h => exact not_isReported_of_host h
  | address => rfl
  | name => rfl
  | document => rfl
  | version => rfl

/-- The findings behind a pin that was read are those behind the latest release. -/
theorem findings_of_pin {pin : Pin} (hpin : (Job.on (Manifest.readPin c) s).1 = .ok pin)
    (h : Listing.latestOf c (Job.nextReply s.replies) = .error f) : findings c s = .error f := by
  obtain ⟨text, htext, hp⟩ := exists_text_of_readPin hpin
  unfold findings
  simp only [htext, hp, h, bind, Except.bind]

theorem findings_of_moves {pin : Pin} {latest : Release} {bump : Bump} {text : Text}
    (hmoves : Moves c s pin latest bump) (htext : s.textAt c.manifestPath = .ok text)
    (h : Manifest.bumped bump text = .error f) : findings c s = .error f := by
  obtain ⟨text', htext', hp⟩ := exists_text_of_readPin hmoves.pinned
  rw [htext] at htext'
  cases htext'
  have hlatest := (Listing.on_fetchLatest c s).symm.trans hmoves.found
  unfold findings
  simp only [htext, hp, hlatest, hmoves.called, h, bind, Except.bind]
  rfl

/-- **What escapes is what the first stage fails with.** -/
theorem Escapes.findings (h : Escapes c s f) : findings c s = .error f := by
  cases h with
  | manifest h =>
    unfold Update.findings
    rw [h]
    rfl
  | host hpin h =>
    refine findings_of_pin hpin ?_
    unfold Listing.latestOf Listing.releasesIn Listing.namesIn
    rw [h]
    rfl
  | address hpin hh ha =>
    refine findings_of_pin hpin ?_
    unfold Listing.latestOf Listing.releasesIn Listing.namesIn
    simp only [hh, ha, bind, Except.bind]
  | name hpin hn hr =>
    refine findings_of_pin hpin ?_
    rw [Listing.on_fetchNames] at hn
    unfold Listing.latestOf Listing.releasesIn
    simp only [hn, hr, bind, Except.bind]
    rfl
  | document hmoves htext hd =>
    refine findings_of_moves hmoves htext ?_
    unfold Manifest.bumped
    simp only [hd]
  | version hmoves htext hd hv hl =>
    refine findings_of_moves hmoves htext ?_
    unfold Manifest.bumped Bump.nextText
    simp only [hd, hv, hl]
    rfl

/-- **What escapes ends the run**, with the files as they were and no command started. -/
theorem Escapes.on_run (h : Escapes c s f) (skipPublish : Bool) :
    (Job.on (run c skipPublish) s).1 = .error f
      ∧ (Job.on (run c skipPublish) s).2.calls = s.calls
      ∧ (Job.on (run c skipPublish) s).2.tree = s.tree := by
  have hfst := (on_prepared_fst c s).trans h.findings
  obtain ⟨hr, hc, ht⟩ := on_run_of_error skipPublish hfst
  refine ⟨hr, hc, ht.trans ?_⟩
  rcases prepared_cases c s with
    ⟨g, t, hp, htree, -⟩ | ⟨_, _, t, hp, -⟩ | ⟨_, _, _, _, _, _, _, _, t, hp, -⟩
  · rw [hp]
    exact htree
  · rw [hp] at hfst
    cases hfst
  · rw [hp] at hfst
    cases hfst

/-- **What a run fails with is reported, unless it escapes.** -/
theorem isReported_of_run {skipPublish : Bool} (h : (Job.on (run c skipPublish) s).1 = .error f)
    (hno : ¬ Escapes c s f) : f.isReported = true := by
  cases hp : (Job.on (prepared c) s).1 with
  | error g =>
    have hg := (on_run_of_error skipPublish hp).1
    rw [h] at hg
    cases hg
    exact (reported_or_escapes ((on_prepared_fst c s).symm.trans hp)).resolve_right hno
  | ok change =>
    cases change with
    | none =>
      rw [(on_run_of_none skipPublish hp).1] at h
      cases h
    | some change =>
      rw [(on_run_of_some skipPublish hp).1] at h
      rcases (advance_cases (stepsOf c skipPublish change.new) s.exits).2 with
        ⟨hf, -, -⟩ | ⟨n, st, o, -, hst, -, hf⟩
      · rw [hf] at h
        cases h
      · rw [hf] at h
        cases h
        exact isReported_of_isOfCommand (isOfCommand_of_advance hst o)

end Update
end Repin
