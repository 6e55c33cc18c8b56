/-
  Repin.Proofs.Update.Files
  ─────────────────────────
  **NOTHING IS HALF DONE BEFORE THE TESTS.**

  Whether a run ends before its tests does not depend on how commands end or on
  whether it publishes.  If it does, the files are as they were and no command was
  started; if it does not, exactly the manifest has changed, and what it holds is the
  bumped text with the latest tag for every occurrence of the pinned one.  What it is to
  replace every occurrence is said by `Text.Replaces`, which leaves one text:

      files_of_run — the two cases, each for all exits and both ways to end
-/
import Repin.Proofs.Text.Bytes
import Repin.Proofs.Update.Commands

namespace Repin
namespace Update

variable {c : Config} {s : Site}

/-- The exits that are to come make no difference to the first stage. -/
theorem on_prepared_exits (c : Config) (s : Site) (exits : List Exit) :
    (Job.on (prepared c) { s with exits }).1 = (Job.on (prepared c) s).1
      ∧ (Job.on (prepared c) { s with exits }).2.tree = (Job.on (prepared c) s).2.tree := by
  have hb : Site.bare { s with exits } = s.bare := rfl
  refine ⟨(startsNothing_prepared c).result_eq hb, ?_⟩
  exact Site.tree_eq_of_bare_eq ((startsNothing_prepared c).bare_eq hb)

/-- **Either a run ends early for all exits, and nothing has been done, or it goes on
to its tests for all exits, and the manifest is the one file that has changed.** -/
theorem files_of_run (c : Config) (s : Site) :
    (∀ (skipPublish : Bool) (exits : List Exit),
      EndsEarly (Job.on (run c skipPublish) { s with exits }).1
        ∧ (Job.on (run c skipPublish) { s with exits }).2.tree = s.tree
        ∧ (Job.on (run c skipPublish) { s with exits }).2.calls = s.calls)
    ∨ ∃ pin latest bump change l written final n,
      Moves c s pin latest bump
        ∧ s.tree.locate s.here c.manifestPath = .ok l
        ∧ Job.on (Manifest.bumpVersion c bump) s
          = (.ok change, { s with tree := s.tree.put l (.file (Text.encode written)) })
        ∧ Text.Replaces pin.tag latest.name written final n
        ∧ ∀ (skipPublish : Bool) (exits : List Exit),
          ¬ EndsEarly (Job.on (run c skipPublish) { s with exits }).1
            ∧ (Job.on (run c skipPublish) { s with exits }).2.tree.get? l
              = some (.file (Text.encode final))
            ∧ ∀ m, m ≠ l →
              (Job.on (run c skipPublish) { s with exits }).2.tree.get? m = s.tree.get? m := by
  rcases prepared_cases c s with ⟨f, t, hp, ht, hf⟩ | ⟨pin, latest, t, hp, ht, -, -, -⟩ |
    ⟨pin, latest, bump, change, l, b, text, written, t, hp, hmoves, hl, htext, hb, ht⟩
  · -- The first stage stopped with a fault.
    left
    intro skipPublish exits
    obtain ⟨hres, htree⟩ := on_prepared_exits c s exits
    rw [hp] at hres htree
    obtain ⟨hr, hc, hk⟩ := on_run_of_error skipPublish hres
    exact ⟨by rw [hr]; exact hf, by rw [hk, htree, ht], hc⟩
  · -- There is no update.
    left
    intro skipPublish exits
    obtain ⟨hres, htree⟩ := on_prepared_exits c s exits
    rw [hp] at hres htree
    obtain ⟨hr, hc, hk⟩ := on_run_of_none skipPublish hres
    exact ⟨by rw [hr]; rfl, by rw [hk, htree, ht], hc⟩
  · -- The manifest was written twice; what follows leaves the files alone.
    right
    refine ⟨pin, latest, bump, change, l, written, _, _, hmoves, hl.locate,
      Manifest.on_bumpVersion hl htext hb, Text.replaces_replaced hmoves.tag_ne_nil _ _, ?_⟩
    intro skipPublish exits
    obtain ⟨hres, htree⟩ := on_prepared_exits c s exits
    rw [hp] at hres htree
    have hk := (on_run_of_some skipPublish hres).2.2
    rw [hk, htree, ht]
    refine ⟨not_endsEarly_of_some skipPublish hres, Tree.get?_put_self hl.ne_root _ _, ?_⟩
    intro m hm
    exact Tree.get?_put_of_ne hm _ _

/-- The manifest of the small site with its version bumped, and then with its pin moved too. -/
def bumpedManifest : Text :=
  "[package]\nversion = \"0.2.0\"\n[dependencies]\nx = \x7b git = \"u\", tag = \"v1.0.0\" \x7d\n"

def movedManifest : Text :=
  "[package]\nversion = \"0.2.0\"\n[dependencies]\nx = \x7b git = \"u\", tag = \"v1.1.0\" \x7d\n"

/-- A run that publishes and one whose tests take too long leave the same manifest. -/
theorem files_of_smallSite :
    (Job.on (run smallConfig false) { smallSite with exits := [] }).1 = .ok .updatedAndPublished
      ∧ (Job.on (run smallConfig false) { smallSite with exits := [] }).2.tree.get?
          ["Cargo.toml".toList]
        = some (.file (Text.encode movedManifest))
      ∧ (Job.on (run smallConfig true) { smallSite with exits := [.timedOut] }).2.tree.get?
          ["Cargo.toml".toList]
        = some (.file (Text.encode movedManifest)) := by
  have hrun : (Job.on (run smallConfig false) { smallSite with exits := [] }).1
      = .ok .updatedAndPublished := published_of_smallSite
  have hbumped : (Job.on (Manifest.bumpVersion smallConfig .minor) smallSite).2.tree.get?
      ["Cargo.toml".toList] = some (.file (Text.encode bumpedManifest)) := by decide +kernel
  have hmoved : Text.replaced "v1.0.0" "v1.1.0" bumpedManifest = movedManifest := by
    decide +kernel
  rcases files_of_run smallConfig smallSite with
    hearly | ⟨pin, latest, bump, change, l, written, final, n, hmoves, hl, hb, hreplaces, hall⟩
  · have he := hearly false []
    rw [hrun] at he
    cases he.1
  · obtain ⟨rfl, rfl, rfl⟩ := moves_of_smallSite.unique hmoves
    obtain rfl : ["Cargo.toml".toList] = l := Except.ok.inj hl
    rw [hb, Tree.get?_put_self (by decide)] at hbumped
    have hwritten := Text.decode?_eq_some_iff.2 (Node.file.inj (Option.some.inj hbumped))
    rw [Text.decode?_encode] at hwritten
    obtain rfl := Option.some.inj hwritten
    obtain ⟨rfl, -⟩ := hreplaces.unique (Text.replaces_replaced (by decide) _ _)
    rw [hmoved] at hall
    have hfile := hall false []
    have hfile' := hall true [.timedOut]
    -- The two runs are opaque from here on; nothing is to be computed of them.
    generalize Job.on (run smallConfig false) { smallSite with exits := [] } = r at hrun hfile ⊢
    generalize Job.on (run smallConfig true) { smallSite with exits := [.timedOut] } = r'
      at hfile' ⊢
    exact ⟨hrun, hfile.2.1, hfile'.2.1⟩

end Update
end Repin
