/-
  Repin.Proofs.Listing
  ────────────────────
  **THE LATEST RELEASE IS A FUNCTION OF THE REPLY.**

  Fetching the latest release asks the host once and prints what it finds.  Apart
  from that it computes:

      (on (Update.fetchLatest c) s).1 = latestOf c (the next reply of s)

  so two sites with the same next reply have the same latest release.  Each release
  that is found carries the version that its name reads as.
-/
import Mathlib.Data.List.Forall2
import Repin.Proofs.Job
import Repin.Update

namespace Repin
namespace Listing

/-! ## §1. Releases carry the versions of their names. -/

theorem ofTag_of_release {p : TagPattern} {name : Text} {r : Release}
    (h : release p name = .ok r) : Version.ofTag p.start r.name = .ok r.version := by
  unfold release at h
  cases hv : Version.ofTag p.start name with
  | error f => rw [hv] at h; cases h
  | ok v => rw [hv] at h; cases h; exact hv

/-- A list is read element by element. -/
theorem mapM_eq_ok_iff {α β ε : Type} {f : α → Except ε β} {as : List α} {bs : List β} :
    as.mapM f = .ok bs ↔ List.Forall₂ (fun a b => f a = .ok b) as bs := by
  induction as generalizing bs with
  | nil =>
    rw [List.forall₂_nil_left_iff]
    exact ⟨fun h => by cases h; rfl, fun h => by rw [h]; rfl⟩
  | cons a as ih =>
    rw [List.mapM_cons, List.forall₂_cons_left_iff]
    constructor
    · intro h
      obtain ⟨b, hb, h⟩ := exists_of_bind_eq_ok h
      obtain ⟨bs, hbs, h⟩ := exists_of_bind_eq_ok h
      cases h
      exact ⟨b, bs, hb, ih.1 hbs, rfl⟩
    · rintro ⟨b, bs, hb, hbs, rfl⟩
      rw [hb, ih.2 hbs]
      rfl

/-- An element of a list stands in the relation to one of the related list. -/
theorem exists_of_mem_forall₂ {α β : Type} {R : α → β → Prop} {as : List α} {bs : List β} {b : β}
    (h : List.Forall₂ R as bs) (hb : b ∈ bs) : ∃ a ∈ as, R a b := by
  induction h with
  | nil => cases hb
  | cons hab _ ih =>
    rcases List.mem_cons.1 hb with rfl | hb
    · exact ⟨_, List.mem_cons_self, hab⟩
    · obtain ⟨a, ha, hr⟩ := ih hb
      exact ⟨a, List.mem_cons_of_mem _ ha, hr⟩

theorem ofTag_of_mem_releases {p : TagPattern} {names : List (List CodePoint)}
    {rs : List Release} {r : Release} (h : releases p names = .ok rs) (hr : r ∈ rs) :
    Version.ofTag p.start r.name = .ok r.version := by
  obtain ⟨xs, hm, h⟩ := exists_of_bind_eq_ok h
  cases h
  obtain ⟨name, -, hn⟩ := exists_of_mem_forall₂ (mapM_eq_ok_iff.1 hm) (List.mem_mergeSort.1 hr)
  exact ofTag_of_release hn

theorem mem_of_pick {p : TagPattern} {rs : List Release} {r : Release} (h : pick p rs = .ok r) :
    r ∈ rs := by
  unfold pick at h
  split at h
  · next x hx => cases h; exact List.mem_of_getLast? hx
  · cases h

/-! ## §2. The latest release of a reply. -/

/-- The names that a reply lists, for a configuration. -/
def namesIn (c : Config) (owner repo : Text) (reply : Reply) :
    Except Fault (List (List CodePoint)) := do
  let h ← host c
  match h.address? owner repo with
  | none => .error .badUrl
  | some address => namesOf owner repo (h.request address).url reply

/-- The releases that a reply lists, oldest first. -/
def releasesIn (c : Config) (owner repo : Text) (reply : Reply) : Except Fault (List Release) := do
  let names ← namesIn c owner repo reply
  (releases (pattern c) names).mapError .refused

/-- The latest release that a reply lists. -/
def latestOf (c : Config) (reply : Reply) : Except Fault Release := do
  let rs ← releasesIn c c.owner c.repo reply
  pick (pattern c) rs

/-- The latest release carries the version of its name. -/
theorem ofTag_of_latestOf {c : Config} {reply : Reply} {r : Release}
    (h : latestOf c reply = .ok r) : Version.ofTag c.tagPrefix r.name = .ok r.version := by
  obtain ⟨rs, hrs, hp⟩ := exists_of_bind_eq_ok h
  obtain ⟨names, -, hr⟩ := exists_of_bind_eq_ok hrs
  cases hx : releases (pattern c) names with
  | error e => rw [hx] at hr; cases hr
  | ok xs =>
    rw [hx] at hr
    cases hr
    exact ofTag_of_mem_releases hx (mem_of_pick hp)

/-! ## §3. Fetching. -/

theorem on_fetchNames (c : Config) (owner repo : Text) (s : Site) :
    (Job.on (fetchNames c owner repo) s).1 = namesIn c owner repo (Job.nextReply s.replies) := by
  unfold fetchNames namesIn
  refine Job.on_bind_fst (Job.on_ofExcept_id_fst _ s) ?_
  intro h t ht
  obtain rfl := Job.eq_of_on_ofExcept ht
  cases h.address? owner repo with
  | none => rfl
  | some address =>
    simp only []
    rw [Job.on_bind_ok (Job.on_request _ s)]
    exact Job.on_ofExcept_id_fst _ _

theorem on_fetchReleases (c : Config) (owner repo : Text) (s : Site) :
    (Job.on (fetchReleases c owner repo) s).1
      = releasesIn c owner repo (Job.nextReply s.replies) := by
  refine Job.on_bind_fst (on_fetchNames c owner repo s) ?_
  intro names t _
  exact Job.on_ofExcept_fst _ _ t

/-- **Fetching the latest release finds that of the next reply.** -/
theorem on_fetchLatest (c : Config) (s : Site) :
    (Job.on (Update.fetchLatest c) s).1 = latestOf c (Job.nextReply s.replies) := by
  unfold Update.fetchLatest Job.announce
  cases hh : host c with
  | error f =>
    -- No host, no address to fetch from either.
    unfold latestOf releasesIn namesIn
    rw [hh]
    rfl
  | ok h =>
    rw [Job.on_bind_ok (Job.on_ofExcept_ok id h s), Job.on_bind_ok (Job.on_say _ s)]
    refine Job.on_bind_fst (on_fetchReleases c c.owner c.repo _) ?_
    intro rs t _
    obtain ⟨log, hlog⟩ := Job.on_forM_say (fun r : Release => "  * " ++ r.name) rs t
    rw [Job.on_bind_ok hlog]
    cases hp : pick (pattern c) rs with
    | error f => rfl
    | ok r => rfl

/-- The latest release is the last of those that are fetched. -/
theorem on_fetchLatest_eq (c : Config) (s : Site) : (Job.on (Update.fetchLatest c) s).1
    = (Job.on (fetchReleases c c.owner c.repo) s).1 >>= pick (pattern c) := by
  rw [on_fetchLatest, on_fetchReleases]
  rfl

end Listing
end Repin
