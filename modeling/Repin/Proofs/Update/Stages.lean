/-
  Repin.Proofs.Update.Stages
  ──────────────────────────
  **AN UPDATE BEFORE AND FROM ITS TESTS ON.**

  An update is cut in two where its tests begin:

      run c skipPublish = prepared c >>= concluded c skipPublish      (`run_eq`)

  `prepared` finds out, decides and changes the manifest; it starts no command.
  `prepared_cases` says once all that it can do: stop with a fault, find no update,
  or write the manifest twice.  Everything that can fail in it comes before the
  first write, so in the first two cases the files are as they were.
-/
import Repin.Proofs.Manifest.Writing
import Repin.Proofs.Tag.Entry
import Repin.Update

namespace Repin

/-! ## §1. The pin of a manifest. -/

namespace Manifest

/-- A pin that is read comes from the leftmost entry. -/
theorem exists_first?_of_pinned {c : Config} {s : Text} {pin : Pin} (h : pinned c s = .ok pin) :
    ∃ e, Entry.first? c.dependencyUrl s = some e ∧ e.tag = pin.tag
      ∧ Version.ofTag c.tagPrefix pin.tag = .ok pin.version := by
  unfold pinned at h
  split at h
  · cases h
  · next e he =>
    split at h
    · next v hv => cases h; exact ⟨e, he, rfl, hv⟩
    · cases h

theorem tag_ne_nil_of_pinned {c : Config} {s : Text} {pin : Pin} (h : pinned c s = .ok pin) :
    pin.tag ≠ [] := by
  obtain ⟨e, he, htag, -⟩ := exists_first?_of_pinned h
  rw [← htag]
  exact Entry.tag_ne_nil_of_first? he

end Manifest

namespace Update

/-! ## §2. The two stages. -/

/-- What an update does once the pin and the latest release are known, up to its
tests: the change of the version, if there is an update. -/
def decided (c : Config) (pin : Pin) (latest : Release) : Job (Option VersionChange) :=
  match Bump.between pin latest with
  | none => return none
  | some bump => do
    Job.say ("\nFound new version: " ++ latest.name)
    let change ← changeManifest c pin latest bump
    return some change

/-- What an update does before its tests. -/
def prepared (c : Config) : Job (Option VersionChange) := do
  let pin ← readPin c
  let latest ← fetchLatest c
  decided c pin latest

/-- What an update does from its tests on. -/
def concluded (c : Config) (skipPublish : Bool) : Option VersionChange → Job Outcome
  | none => do
    Job.say "\nNo new update found."
    return .noUpdateAvailable
  | some change => do
    runTests c
    if skipPublish then
      Job.say "\nSkipping publish; manifest changes left uncommitted."
      return .updatedOnly
    publish c change.new
    let rule := List.replicate 60 '='
    Job.say ('\n' :: rule ++ "\nPublished " ++ change.new ++ '\n' :: rule)
    return .updatedAndPublished

theorem run_eq (c : Config) (skipPublish : Bool) :
    run c skipPublish = prepared c >>= concluded c skipPublish := by
  unfold run prepared decided
  simp only [bind_assoc]
  congr 1
  funext pin
  congr 1
  funext latest
  cases Bump.between pin latest with
  | none => simp only [pure_bind, concluded]
  | some bump => simp only [bind_assoc, pure_bind, concluded]

/-! ## §3. The first stage starts nothing. -/

theorem startsNothing_readPin (c : Config) : Job.StartsNothing (readPin c) := by
  unfold readPin Manifest.readPin Manifest.read
  refine .bind (.announce _) fun _ => .bind ?_ fun pin => .bind (.say _) fun _ => .pure _
  exact .bind (.readText _) fun t => .ofExcept _ _

theorem startsNothing_fetchNames (c : Config) (owner repo : Text) :
    Job.StartsNothing (Listing.fetchNames c owner repo) := by
  unfold Listing.fetchNames
  refine .bind (.ofExcept _ _) fun h => ?_
  split
  · exact .throw _
  · exact .bind (.request _) fun reply => .ofExcept _ _

theorem startsNothing_fetchLatest (c : Config) : Job.StartsNothing (fetchLatest c) := by
  unfold fetchLatest Listing.fetchReleases
  refine .bind (.ofExcept _ _) fun _ => .bind (.announce _) fun _ => .bind ?_ fun rs =>
    .bind (.forM (fun _ => .say _) rs) fun _ => .bind (.ofExcept _ _) fun latest =>
    .bind (.say _) fun _ => .pure _
  exact .bind (startsNothing_fetchNames c c.owner c.repo) fun names => .ofExcept _ _

theorem startsNothing_bumpVersion (c : Config) (bump : Bump) :
    Job.StartsNothing (Manifest.bumpVersion c bump) := by
  unfold Manifest.bumpVersion Manifest.read
  refine .bind (.readText _) fun t => .bind (.ofExcept _ _) fun p => ?_
  obtain ⟨change, text⟩ := p
  exact .bind (.writeText _ _) fun _ => .pure _

theorem startsNothing_changeManifest (c : Config) (pin : Pin) (latest : Release) (bump : Bump) :
    Job.StartsNothing (changeManifest c pin latest bump) := by
  unfold changeManifest Manifest.replaceAll Manifest.read
  refine .bind (.announce _) fun _ => .bind (startsNothing_bumpVersion c bump) fun change =>
    .bind (.say _) fun _ => .bind ?_ fun count => .bind (.say _) fun _ => .pure _
  exact .bind (.readText _) fun t => .bind (.writeText _ _) fun _ => .pure _

theorem startsNothing_prepared (c : Config) : Job.StartsNothing (prepared c) := by
  unfold prepared decided
  refine .bind (startsNothing_readPin c) fun pin =>
    .bind (startsNothing_fetchLatest c) fun latest => ?_
  split
  · exact .pure _
  · exact .bind (.say _) fun _ =>
      .bind (startsNothing_changeManifest c pin latest _) fun change => .pure _

theorem keepsFiles_fetchLatest (c : Config) : Job.KeepsFiles (fetchLatest c) := by
  unfold fetchLatest Listing.fetchReleases Listing.fetchNames
  refine .bind (.ofExcept _ _) fun _ => .bind (.announce _) fun _ => .bind ?_ fun rs =>
    .bind (.forM (fun _ => .say _) rs) fun _ => .bind (.ofExcept _ _) fun latest =>
    .bind (.say _) fun _ => .pure _
  refine .bind (.bind (.ofExcept _ _) fun h => ?_) fun names => .ofExcept _ _
  split
  · exact .throw _
  · exact .bind (.request _) fun reply => .ofExcept _ _

/-! ## §4. What the first stage can do. -/

/-- Is the fault that of a command of an update, a test or a step of publishing? -/
def isOfCommand : Fault → Bool
  | .testsFailed _ => true
  | .publishFailed _ _ => true
  | _ => false

/-- Every fault of a command is reported. -/
theorem isReported_of_isOfCommand {f : Fault} (h : isOfCommand f = true) : f.isReported = true := by
  cases f <;> first | rfl | cases h

theorem not_isOfCommand_of_not_isReported {f : Fault} (h : f.isReported = false) :
    isOfCommand f = false := by
  cases hf : isOfCommand f with
  | false => rfl
  | true =>
    rw [isReported_of_isOfCommand hf] at h
    cases h

/-- The fault is reported and is not that of a command. -/
def IsFinding (f : Fault) : Prop := f.isReported = true ∧ isOfCommand f = false

/-- The run ends before its tests: without an update, or with a fault that is neither
one of the tests nor one of publishing. -/
def EndsEarly : Except Fault Outcome → Prop
  | .ok outcome => outcome = .noUpdateAvailable
  | .error f => isOfCommand f = false

/-- On the site `s` there is an update: the manifest pins `pin`, the latest release is
`latest`, and moving from one to the other calls for `bump`. -/
structure Moves (c : Config) (s : Site) (pin : Pin) (latest : Release) (bump : Bump) : Prop where
  pinned : (Job.on (Manifest.readPin c) s).1 = .ok pin
  found : (Job.on (fetchLatest c) s).1 = .ok latest
  called : Bump.between pin latest = some bump

theorem Moves.unique {c : Config} {s : Site} {pin pin' : Pin} {latest latest' : Release}
    {bump bump' : Bump} (h : Moves c s pin latest bump) (h' : Moves c s pin' latest' bump') :
    pin = pin' ∧ latest = latest' ∧ bump = bump' := by
  obtain ⟨hp, hf, hc⟩ := h
  obtain ⟨hp', hf', hc'⟩ := h'
  rw [hp] at hp'
  rw [hf] at hf'
  cases hp'
  cases hf'
  rw [hc] at hc'
  cases hc'
  exact ⟨rfl, rfl, rfl⟩

theorem on_readPin_manifest (c : Config) (s : Site) :
    Job.on (Manifest.readPin c) s
      = ((s.textAt c.manifestPath).bind (Manifest.pinned c), s) := by
  unfold Manifest.readPin Manifest.read
  rw [Job.on_bind, Job.on_readText]
  cases s.textAt c.manifestPath with
  | error f => rfl
  | ok t =>
    show Job.on (Job.ofExcept id (Manifest.pinned c t)) s = (Manifest.pinned c t, s)
    cases Manifest.pinned c t <;> rfl

/-- Reading the pin looks at the manifest and prints. -/
theorem on_readPin (c : Config) (s : Site) :
    ∃ t, Job.on (readPin c) s = ((Job.on (Manifest.readPin c) s).1, t) ∧ t.bare = s.bare := by
  unfold readPin Job.announce
  rw [Job.on_bind_ok (Job.on_say _ s), on_readPin_manifest]
  set u : Site := { s with log := _ } with hu
  have hr : Job.on (Manifest.readPin c) u
      = ((s.textAt c.manifestPath).bind (Manifest.pinned c), u) := on_readPin_manifest c u
  cases hp : (s.textAt c.manifestPath).bind (Manifest.pinned c) with
  | error f =>
    rw [hp] at hr
    exact ⟨u, Job.on_bind_error hr _, rfl⟩
  | ok pin =>
    rw [hp] at hr
    rw [Job.on_bind_ok hr, Job.on_bind_ok (Job.on_say _ u), Job.on_pure]
    exact ⟨_, rfl, rfl⟩

/-- The manifest after both writes: bumped, and then with the latest tag for the
pinned one. -/
theorem on_changeManifest {c : Config} {s : Site} {l : Location} {b : Bytes} {t u : Text}
    {bump : Bump} {change : VersionChange} (pin : Pin) (latest : Release)
    (h : s.tree.Holds s.here c.manifestPath l b) (ht : s.textAt c.manifestPath = .ok t)
    (hb : Manifest.bumped bump t = .ok (change, u)) :
    ∃ v, Job.on (changeManifest c pin latest bump) s = (.ok change, v)
      ∧ v.tree = s.tree.put l (.file (Text.encode (Text.replaced pin.tag latest.name u)))
      ∧ v.here = s.here := by
  have hu : '\r' ∉ u := Manifest.return_notMem_bumped (Site.return_notMem_of_textAt ht) hb
  unfold changeManifest Job.announce
  rw [Job.on_bind_ok (Job.on_say _ s)]
  set s₁ : Site := { s with log := _ }
  have h₁ : s₁.tree.Holds s₁.here c.manifestPath l b := h
  rw [Job.on_bind_ok (Manifest.on_bumpVersion h₁ ht hb), Job.on_bind_ok (Job.on_say _ _)]
  set s₂ : Site := { s₁ with tree := s.tree.put l (.file (Text.encode u)), log := _ }
  have h₂ : s₂.tree.Holds s₂.here c.manifestPath l (Text.encode u) := h.put (Text.encode u)
  have ht₂ : s₂.textAt c.manifestPath = .ok u := by
    rw [Site.textAt_of_holds h₂, Text.unified_eq_self hu]
  rw [Job.on_bind_ok (Manifest.on_replaceAll h₂ ht₂ pin.tag latest.name),
    Job.on_bind_ok (Job.on_say _ _), Job.on_pure]
  exact ⟨_, rfl, Tree.put_put _ _, rfl⟩

theorem on_changeManifest_error {c : Config} {s : Site} {t : Text} {bump : Bump} {f : Fault}
    (pin : Pin) (latest : Release) (ht : s.textAt c.manifestPath = .ok t)
    (hb : Manifest.bumped bump t = .error f) :
    ∃ v, Job.on (changeManifest c pin latest bump) s = (.error f, v) ∧ v.tree = s.tree := by
  unfold changeManifest Job.announce
  rw [Job.on_bind_ok (Job.on_say _ s)]
  set s₁ : Site := { s with log := _ }
  have ht₁ : s₁.textAt c.manifestPath = .ok t := ht
  rw [Job.on_bind_error (Manifest.on_bumpVersion_error ht₁ hb)]
  exact ⟨s₁, rfl, rfl⟩

theorem not_isReported_of_host {c : Config} {f : Fault} (h : Listing.host c = .error f) :
    f.isReported = false := by
  unfold Listing.host at h
  split at h
  · cases h; rfl
  · split at h
    · cases h
    · cases h; rfl

theorem isFinding_of_namesOf {owner repo url : Text} {reply : Reply} {f : Fault}
    (h : Listing.namesOf owner repo url reply = .error f) : IsFinding f := by
  unfold Listing.namesOf at h
  split at h
  · cases h; exact ⟨rfl, rfl⟩
  · split at h
    · split at h
      · cases h; exact ⟨rfl, rfl⟩
      · next records _ =>
        cases hn : Listing.names records with
        | error r => rw [hn] at h; cases h; exact ⟨rfl, rfl⟩
        | ok ns => rw [hn] at h; cases h
      · cases h; exact ⟨rfl, rfl⟩
    · cases h; exact ⟨rfl, rfl⟩

theorem isFinding_of_pick {p : TagPattern} {rs : List Release} {f : Fault}
    (h : Listing.pick p rs = .error f) : IsFinding f := by
  unfold Listing.pick at h
  split at h
  · cases h
  · cases h; exact ⟨rfl, rfl⟩

theorem failsWith_fetchLatest (c : Config) :
    (fetchLatest c).FailsWith (fun f => isOfCommand f = false) := by
  unfold fetchLatest Listing.fetchReleases Listing.fetchNames
  have hhost : ∀ f, Listing.host c = .error f → isOfCommand f = false :=
    fun f hf => not_isOfCommand_of_not_isReported (not_isReported_of_host hf)
  refine .bind (.ofExcept hhost) fun _ => .bind (.announce _) fun _ =>
    .bind ?_ fun rs => .bind (.forM (fun _ => .say _) rs) fun _ =>
    .bind (.ofExcept fun f hf => (isFinding_of_pick hf).2) fun latest => .bind (.say _) fun _ =>
    .pure _
  refine .bind (.bind (.ofExcept hhost) fun h => ?_) fun names => .ofExcept fun r _ => rfl
  split
  · exact .throw rfl
  · exact .bind (.request _) fun reply => .ofExcept fun f hf => (isFinding_of_namesOf hf).2

theorem not_isReported_of_textAt {s : Site} {p : Path} {f : Fault} (h : s.textAt p = .error f) :
    f.isReported = false := by
  unfold Site.textAt at h
  split at h
  · next e _ =>
    cases h
    cases e <;> rfl
  · split at h
    · cases h
    · cases h; rfl

theorem isFinding_of_pinned {c : Config} {t : Text} {f : Fault}
    (h : Manifest.pinned c t = .error f) : IsFinding f := by
  unfold Manifest.pinned at h
  split at h
  · cases h; exact ⟨rfl, rfl⟩
  · split at h
    · cases h
    · cases h; exact ⟨rfl, rfl⟩

/-- A pin that was read is that of the manifest's text. -/
theorem exists_text_of_readPin {c : Config} {s : Site} {pin : Pin}
    (h : (Job.on (Manifest.readPin c) s).1 = .ok pin) :
    ∃ text, s.textAt c.manifestPath = .ok text ∧ Manifest.pinned c text = .ok pin := by
  rw [on_readPin_manifest] at h
  cases ht : s.textAt c.manifestPath with
  | error f => rw [ht] at h; cases h
  | ok text => rw [ht] at h; exact ⟨text, rfl, h⟩

theorem Moves.tag_ne_nil {c : Config} {s : Site} {pin : Pin} {latest : Release} {bump : Bump}
    (h : Moves c s pin latest bump) : pin.tag ≠ [] := by
  obtain ⟨text, -, hpinned⟩ := exists_text_of_readPin h.pinned
  exact Manifest.tag_ne_nil_of_pinned hpinned

theorem isOfCommand_of_readPin {c : Config} {s : Site} {f : Fault}
    (h : (Job.on (Manifest.readPin c) s).1 = .error f) : isOfCommand f = false := by
  rw [on_readPin_manifest] at h
  cases ht : s.textAt c.manifestPath with
  | error g =>
    rw [ht] at h
    cases h
    exact not_isOfCommand_of_not_isReported (not_isReported_of_textAt ht)
  | ok text =>
    rw [ht] at h
    exact (isFinding_of_pinned h).2

theorem isOfCommand_of_bumped {bump : Bump} {t : Text} {f : Fault}
    (h : Manifest.bumped bump t = .error f) : isOfCommand f = false := by
  rcases Manifest.bumped_error_cases h with rfl | ⟨-, rfl⟩ | ⟨d, v, r, -, -, -, rfl⟩ <;> rfl

/-- What is found out changes no file, so the decision is made on the files as they
were. -/
theorem on_prepared {c : Config} {s : Site} {pin : Pin} {latest : Release}
    (hpin : (Job.on (Manifest.readPin c) s).1 = .ok pin)
    (hlatest : (Job.on (fetchLatest c) s).1 = .ok latest) :
    ∃ t, Job.on (prepared c) s = Job.on (decided c pin latest) t
      ∧ t.tree = s.tree ∧ t.here = s.here := by
  obtain ⟨u, hu, hbare⟩ := on_readPin c s
  rw [hpin] at hu
  unfold prepared
  rw [Job.on_bind_ok hu]
  -- The latest release is the same, found before or behind the reading of the pin.
  have hsame := (startsNothing_fetchLatest c).result_eq hbare
  have hkeep := keepsFiles_fetchLatest c u
  have hstay := (startsNothing_fetchLatest c).here_eq u
  rw [hlatest] at hsame
  rcases hf : Job.on (fetchLatest c) u with ⟨r, t⟩
  rw [hf] at hsame hkeep hstay
  cases hsame
  refine ⟨t, Job.on_bind_ok hf _, hkeep.trans ?_, hstay.trans ?_⟩
  · exact Site.tree_eq_of_bare_eq hbare
  · exact Site.here_eq_of_bare_eq hbare

/-- If the pin or the latest release is not found, nothing has been done. -/
theorem on_prepared_error {c : Config} {s : Site} {f : Fault}
    (h : (Job.on (Manifest.readPin c) s).1 = .error f
      ∨ (∃ pin, (Job.on (Manifest.readPin c) s).1 = .ok pin)
        ∧ (Job.on (fetchLatest c) s).1 = .error f) :
    ∃ t, Job.on (prepared c) s = (.error f, t) ∧ t.tree = s.tree := by
  obtain ⟨u, hu, hbare⟩ := on_readPin c s
  have htree : u.tree = s.tree := Site.tree_eq_of_bare_eq hbare
  unfold prepared
  rcases h with h | ⟨⟨pin, hpin⟩, h⟩
  · rw [h] at hu
    exact ⟨u, Job.on_bind_error hu _, htree⟩
  · rw [hpin] at hu
    have hsame := (startsNothing_fetchLatest c).result_eq hbare
    have hkeep := keepsFiles_fetchLatest c u
    rw [h] at hsame
    rcases hf : Job.on (fetchLatest c) u with ⟨r, t⟩
    rw [hf] at hsame hkeep
    cases hsame
    exact ⟨t, (Job.on_bind_ok hu _).trans (Job.on_bind_error hf _), hkeep.trans htree⟩

/-- Without an update the decision does nothing. -/
theorem on_decided_none {c : Config} {pin : Pin} {latest : Release}
    (h : Bump.between pin latest = none) (s : Site) :
    Job.on (decided c pin latest) s = (.ok none, s) := by
  unfold decided
  rw [h]
  rfl

/-- An update whose new version cannot be formed stops with that fault, the files as they
were. -/
theorem on_decided_error {c : Config} {s : Site} {pin : Pin} {latest : Release} {bump : Bump}
    {text : Text} {f : Fault} (h : Bump.between pin latest = some bump)
    (htext : s.textAt c.manifestPath = .ok text) (hb : Manifest.bumped bump text = .error f) :
    ∃ t, Job.on (decided c pin latest) s = (.error f, t) ∧ t.tree = s.tree := by
  unfold decided
  rw [h]
  simp only []
  rw [Job.on_bind_ok (Job.on_say _ s)]
  set u : Site := { s with log := _ }
  have htext' : u.textAt c.manifestPath = .ok text := htext
  obtain ⟨v, hv, htree⟩ := on_changeManifest_error pin latest htext' hb
  exact ⟨v, Job.on_bind_error hv _, htree⟩

/-- An update that goes ahead leaves the manifest bumped, with the latest tag for the pinned
one. -/
theorem on_decided_some {c : Config} {s : Site} {pin : Pin} {latest : Release} {bump : Bump}
    {l : Location} {b : Bytes} {text written : Text} {change : VersionChange}
    (h : Bump.between pin latest = some bump) (hl : s.tree.Holds s.here c.manifestPath l b)
    (htext : s.textAt c.manifestPath = .ok text)
    (hb : Manifest.bumped bump text = .ok (change, written)) :
    ∃ t, Job.on (decided c pin latest) s = (.ok (some change), t)
      ∧ t.tree = s.tree.put l
          (.file (Text.encode (Text.replaced pin.tag latest.name written))) := by
  unfold decided
  rw [h]
  simp only []
  rw [Job.on_bind_ok (Job.on_say _ s)]
  set u : Site := { s with log := _ }
  have hl' : u.tree.Holds u.here c.manifestPath l b := hl
  have htext' : u.textAt c.manifestPath = .ok text := htext
  obtain ⟨v, hv, htree, -⟩ := on_changeManifest pin latest hl' htext' hb
  exact ⟨v, Job.on_bind_ok hv _, htree⟩

/-- **All that the first stage can do**: stop with a fault or find no update, both
with the files as they were, or write the manifest. -/
theorem prepared_cases (c : Config) (s : Site) :
    (∃ f t, Job.on (prepared c) s = (.error f, t) ∧ t.tree = s.tree ∧ isOfCommand f = false)
    ∨ (∃ pin latest t, Job.on (prepared c) s = (.ok none, t) ∧ t.tree = s.tree
        ∧ (Job.on (Manifest.readPin c) s).1 = .ok pin ∧ (Job.on (fetchLatest c) s).1 = .ok latest
        ∧ Bump.between pin latest = none)
    ∨ (∃ pin latest bump change l b text written t, Job.on (prepared c) s = (.ok (some change), t)
        ∧ Moves c s pin latest bump ∧ s.tree.Holds s.here c.manifestPath l b
        ∧ s.textAt c.manifestPath = .ok text ∧ Manifest.bumped bump text = .ok (change, written)
        ∧ t.tree = s.tree.put l
            (.file (Text.encode (Text.replaced pin.tag latest.name written)))) := by
  cases hpin : (Job.on (Manifest.readPin c) s).1 with
  | error f =>
    obtain ⟨t, ht, htree⟩ := on_prepared_error (.inl hpin)
    refine .inl ⟨f, t, ht, htree, ?_⟩
    exact isOfCommand_of_readPin hpin
  | ok pin =>
  cases hlatest : (Job.on (fetchLatest c) s).1 with
  | error f =>
    obtain ⟨t, ht, htree⟩ := on_prepared_error (.inr ⟨⟨pin, hpin⟩, hlatest⟩)
    exact .inl ⟨f, t, ht, htree, failsWith_fetchLatest c s f hlatest⟩
  | ok latest =>
  obtain ⟨t, ht, htree, hhere⟩ := on_prepared hpin hlatest
  rw [ht]
  obtain ⟨text, htext, -⟩ := exists_text_of_readPin hpin
  have htext' : t.textAt c.manifestPath = .ok text :=
    (Site.SameFiles.textAt_eq ⟨hhere, htree⟩ _).trans htext
  cases hb : Bump.between pin latest with
  | none => exact .inr (.inl ⟨pin, latest, t, on_decided_none hb t, htree, rfl, rfl, hb⟩)
  | some bump =>
  cases hw : Manifest.bumped bump text with
  | error f =>
    obtain ⟨v, hv, hvt⟩ := on_decided_error hb htext' hw
    exact .inl ⟨f, v, hv, hvt.trans htree, isOfCommand_of_bumped hw⟩
  | ok p =>
    obtain ⟨change, written⟩ := p
    obtain ⟨l, b, hl, -⟩ := Site.exists_holds_of_textAt htext
    have hl' : t.tree.Holds t.here c.manifestPath l b := by rwa [htree, hhere]
    obtain ⟨v, hv, hvt⟩ := on_decided_some hb hl' htext' hw
    rw [htree] at hvt
    exact .inr (.inr ⟨pin, latest, bump, change, l, b, text, written, v, hv,
      ⟨hpin, hlatest, hb⟩, hl, htext, hw, hvt⟩)

/-! ## §5. The small site. -/

theorem moves_of_smallSite :
    Moves smallConfig smallSite ⟨"v1.0.0", ⟨1, 0, 0, [], []⟩⟩ ⟨"v1.1.0", ⟨1, 1, 0, [], []⟩⟩
      .minor where
  pinned := eq_ok_of_toOption (by decide +kernel)
  found := eq_ok_of_toOption (by decide +kernel)
  called := by decide

theorem bumpVersion_of_smallSite :
    (Job.on (Manifest.bumpVersion smallConfig .minor) smallSite).1 = .ok ⟨"0.1.0", "0.2.0"⟩ :=
  eq_ok_of_toOption (by decide +kernel)

theorem published_of_smallSite :
    (Job.on (run smallConfig false) smallSite).1 = .ok .updatedAndPublished :=
  eq_ok_of_toOption (by decide +kernel)

end Update
end Repin
