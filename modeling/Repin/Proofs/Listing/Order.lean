/-
  Repin.Proofs.Listing.Order
  ──────────────────────────
  **THE LISTING OF RELEASES LOSES, INVENTS AND MISORDERS NOTHING.**

  Reading the accepted names one by one gives a list of releases, and sorting it gives the
  listing.  The sort permutes them, puts lower precedence first and keeps the order of
  those that have the same precedence, for which it needs precedence to be transitive and
  total:

    • `releases_eq_ok_iff` — the listing is the sorted list of what the names stand for,
    • `filter_mergeSort` — what is of equal order is kept in order by a sort,
    • `exists_append_of_getLast?` — the last of a sorted list is the last among the
      greatest elements of the list before,
    • `releases_of_names` — all of this for the releases that are fetched.
-/
import Repin.Proofs.Listing
import Repin.Proofs.Version.Order

namespace Repin
namespace Listing

/-! ## §1. Names and releases. -/

theorem release_eq_ok_iff {p : TagPattern} {name : Text} {r : Release} :
    release p name = .ok r ↔ r.name = name ∧ Version.ofTag p.start name = .ok r.version := by
  unfold release
  cases Version.ofTag p.start name with
  | error e => exact ⟨nofun, fun h => nomatch h.2⟩
  | ok v =>
    constructor
    · intro h
      cases h
      exact ⟨rfl, rfl⟩
    · rintro ⟨rfl, h⟩
      cases h
      rfl

/-- The listed name is accepted by the pattern. -/
def isAccepted (p : TagPattern) (name : List CodePoint) : Bool :=
  (CodePoint.text? name).any p.accepts

theorem isAccepted_ofText (p : TagPattern) (t : Text) :
    isAccepted p (CodePoint.ofText t) = p.accepts t := by
  unfold isAccepted
  rw [CodePoint.text?_ofText, Option.any_some]

/-- The listed name is that of the release, and the version of the release is read from it. -/
def Names (start : Text) (name : List CodePoint) (r : Release) : Prop :=
  name = CodePoint.ofText r.name ∧ Version.ofTag start r.name = .ok r.version

/-- The accepted names as they were listed. -/
theorem filter_isAccepted (p : TagPattern) (names : List (List CodePoint)) :
    names.filter (isAccepted p) = (accepted p names).map CodePoint.ofText := by
  unfold accepted
  induction names with
  | nil => rfl
  | cons n names ih =>
    cases ht : CodePoint.text? n with
    | none =>
      rw [List.filter_cons_of_neg (by simp [isAccepted, ht]), List.filterMap_cons_none ht, ih]
    | some t =>
      rw [List.filterMap_cons_some ht]
      by_cases ha : p.accepts t = true
      · rw [List.filter_cons_of_pos (by simpa [isAccepted, ht] using ha),
          List.filter_cons_of_pos ha, List.map_cons, ← CodePoint.text?_eq_some_iff.1 ht, ih]
      · rw [List.filter_cons_of_neg (by simpa [isAccepted, ht] using ha),
          List.filter_cons_of_neg ha, ih]

/-- The order in which releases are listed. -/
def listed (a b : Release) : Bool := Version.notAfter a.version b.version

theorem listed_trans (a b d : Release) (hab : listed a b = true) (hbd : listed b d = true) :
    listed a d = true :=
  Version.notAfter_trans hab hbd

theorem listed_total (a b : Release) : (listed a b || listed b a) = true :=
  Version.notAfter_total a.version b.version

/-- **The releases are the sorted list of what the accepted names stand for.** -/
theorem releases_eq_ok_iff {p : TagPattern} {names : List (List CodePoint)} {rs : List Release} :
    releases p names = .ok rs ↔
      ∃ xs, List.Forall₂ (Names p.start) (names.filter (isAccepted p)) xs
        ∧ rs = xs.mergeSort listed := by
  have hnames : ∀ xs, (accepted p names).mapM (release p) = .ok xs ↔
      List.Forall₂ (Names p.start) (names.filter (isAccepted p)) xs := by
    intro xs
    rw [mapM_eq_ok_iff, filter_isAccepted, List.forall₂_map_left_iff]
    refine iff_of_eq (congrArg (fun R => List.Forall₂ R (accepted p names) xs) ?_)
    funext t r
    rw [release_eq_ok_iff]
    unfold Names
    refine propext ⟨?_, ?_⟩
    · rintro ⟨rfl, h⟩
      exact ⟨rfl, h⟩
    · rintro ⟨ht, h⟩
      obtain rfl := CodePoint.ofText_inj.1 ht
      exact ⟨rfl, h⟩
  constructor
  · intro h
    obtain ⟨xs, hxs, h⟩ := exists_of_bind_eq_ok h
    cases h
    exact ⟨xs, (hnames xs).1 hxs, rfl⟩
  · rintro ⟨xs, hxs, rfl⟩
    unfold releases
    rw [(hnames xs).2 hxs]
    rfl

/-! ## §2. Sorting. -/

section
variable {α : Type} {le : α → α → Bool}

/-- **A sort keeps the order of elements that are not after each other.** -/
theorem filter_mergeSort (trans : ∀ a b c, le a b = true → le b c = true → le a c = true)
    (total : ∀ a b, (le a b || le b a) = true) {p : α → Bool} {xs : List α}
    (hp : ∀ a ∈ xs, ∀ b ∈ xs, p a = true → p b = true → le a b = true) :
    (xs.mergeSort le).filter p = xs.filter p := by
  have hpair : (xs.filter p).Pairwise (fun a b => le a b = true) := by
    refine List.pairwise_iff_forall_sublist.2 (fun hab => ?_)
    obtain ⟨ha, hpa⟩ := List.mem_filter.1 (hab.subset List.mem_cons_self)
    obtain ⟨hb, hpb⟩ := List.mem_filter.1 (hab.subset (List.mem_cons_of_mem _ List.mem_cons_self))
    exact hp _ ha _ hb hpa hpb
  have hsub := (List.sublist_mergeSort trans total hpair List.filter_sublist).filter p
  rw [List.filter_filter] at hsub
  simp only [Bool.and_self] at hsub
  -- A permutation keeps the number of these elements, so none has come in.
  have hlen := ((List.mergeSort_perm xs le).filter p).length_eq
  exact (hsub.eq_of_length hlen.symm).symm

/-- The last element of those that satisfy `p` stands before some that do not. -/
theorem exists_append_of_filter {p : α → Bool} {xs : List α} {a : α}
    (h : (xs.filter p).getLast? = some a) :
    ∃ ys zs, xs = ys ++ a :: zs ∧ p a = true ∧ ∀ z ∈ zs, p z = false := by
  obtain ⟨as, has⟩ := List.getLast?_eq_some_iff.1 h
  obtain ⟨l, r, rfl, -, hr⟩ := List.filter_eq_append_iff.1 has
  obtain ⟨y, z, rfl, -, ha, hz⟩ := List.filter_eq_cons_iff.1 hr
  refine ⟨l ++ y, z, by rw [List.append_assoc], ha, fun x hx => ?_⟩
  exact Bool.eq_false_iff.2 (List.filter_eq_nil_iff.1 hz x hx)

/-- In a sorted list no element is after the last one. -/
theorem le_of_getLast? (total : ∀ a b, (le a b || le b a) = true) {rs : List α} {a : α}
    (hs : rs.Pairwise (fun a b => le a b = true)) (h : rs.getLast? = some a) :
    ∀ x ∈ rs, le x a = true := by
  obtain ⟨as, rfl⟩ := List.getLast?_eq_some_iff.1 h
  intro x hx
  rcases List.mem_append.1 hx with hx | hx
  · exact (List.pairwise_append.1 hs).2.2 x hx a (List.mem_singleton_self a)
  · rw [List.mem_singleton.1 hx]
    simpa using total a a

/-- **The last element of a sorted list** is the last one among the greatest elements of the
list before it was sorted. -/
theorem exists_append_of_getLast? (trans : ∀ a b c, le a b = true → le b c = true → le a c = true)
    (total : ∀ a b, (le a b || le b a) = true) {xs : List α} {a : α}
    (h : (xs.mergeSort le).getLast? = some a) :
    ∃ ys zs, xs = ys ++ a :: zs ∧ (∀ y ∈ ys, le y a = true) ∧ ∀ z ∈ zs, le a z = false := by
  have hle := le_of_getLast? total (List.pairwise_mergeSort trans total xs) h
  -- The greatest elements are those that the last one is not after.
  have hfilter : (xs.filter (le a)).getLast? = some a := by
    have hsame : (xs.mergeSort le).filter (le a) = xs.filter (le a) := by
      refine filter_mergeSort trans total (fun x hx y _ _ hy => ?_)
      exact trans x a y (hle x (List.mem_mergeSort.2 hx)) hy
    obtain ⟨as, has⟩ := List.getLast?_eq_some_iff.1 h
    have haa : le a a = true := hle a (List.mem_of_getLast? h)
    rw [← hsame, has, List.filter_append, List.filter_cons_of_pos haa, List.filter_nil,
      List.getLast?_concat]
  obtain ⟨ys, zs, rfl, -, hz⟩ := exists_append_of_filter hfilter
  refine ⟨ys, zs, rfl, fun y hy => ?_, hz⟩
  exact hle y (List.mem_mergeSort.2 (List.mem_append_left _ hy))

end

/-! ## §3. The releases that are fetched. -/

variable {c : Config} {owner repo : Text} {s : Site} {names : List (List CodePoint)}
  {rs : List Release}

/-- The releases that are fetched are those among the names that are fetched. -/
theorem on_fetchReleases_of_names (hn : (Job.on (fetchNames c owner repo) s).1 = .ok names) :
    (Job.on (fetchReleases c owner repo) s).1
      = (releases (pattern c) names).mapError .refused := by
  rw [on_fetchNames] at hn
  rw [on_fetchReleases, releasesIn, hn]
  rfl

/-- Releases that are listed in order stay as they are. -/
theorem releases_of_pairwise {p : TagPattern} {names : List (List CodePoint)}
    (h : (accepted p names).mapM (release p) = .ok rs)
    (hs : rs.Pairwise (fun a b => listed a b = true)) : releases p names = .ok rs := by
  unfold releases
  rw [h]
  show Except.ok (rs.mergeSort listed) = .ok rs
  rw [List.mergeSort_of_pairwise hs]

/-- The latest release is picked from those that are fetched. -/
theorem on_fetchLatest_of_releases (hr : (Job.on (fetchReleases c owner repo) s).1 = .ok rs) :
    (Job.on (fetchLatest c owner repo) s).1 = pick (pattern c) rs := by
  unfold fetchLatest
  rcases ht : Job.on (fetchReleases c owner repo) s with ⟨r, t⟩
  rw [ht] at hr
  subst hr
  rw [Job.on_bind_ok ht]
  exact Job.on_ofExcept_id_fst _ _

theorem fetchReleases_eq_ok_iff (hn : (Job.on (fetchNames c owner repo) s).1 = .ok names) :
    (Job.on (fetchReleases c owner repo) s).1 = .ok rs ↔ releases (pattern c) names = .ok rs := by
  rw [on_fetchReleases_of_names hn]
  cases releases (pattern c) names with
  | error e => exact ⟨nofun, nofun⟩
  | ok rs' =>
    show Except.ok rs' = .ok rs ↔ _
    rw [Except.ok.injEq, Except.ok.injEq]

/-- The releases that are fetched are sorted. -/
theorem exists_of_fetchReleases (hn : (Job.on (fetchNames c owner repo) s).1 = .ok names)
    (hr : (Job.on (fetchReleases c owner repo) s).1 = .ok rs) :
    ∃ xs, List.Forall₂ (Names c.tagPrefix) (names.filter (isAccepted (pattern c))) xs
      ∧ rs = xs.mergeSort listed :=
  releases_eq_ok_iff.1 ((fetchReleases_eq_ok_iff hn).1 hr)

theorem pick_eq_noRelease_iff {p : TagPattern} :
    pick p rs = .error (.noRelease p.source) ↔ rs = [] := by
  unfold pick
  cases hl : rs.getLast? with
  | none => simpa using List.getLast?_eq_none_iff.1 hl
  | some r =>
    have hne : rs ≠ [] := by
      rintro rfl
      cases hl
    exact ⟨nofun, fun he => absurd he hne⟩

/-- Of sorted releases the last one listed among those of the highest precedence is picked. -/
theorem exists_append_of_pick {p : TagPattern} {xs : List Release} (h : xs ≠ []) :
    ∃ ys r zs, xs = ys ++ r :: zs ∧ pick p (xs.mergeSort listed) = .ok r
      ∧ (∀ y ∈ ys, ¬ r.version.Below y.version) ∧ ∀ z ∈ zs, z.version.Below r.version := by
  unfold pick
  cases hl : (xs.mergeSort listed).getLast? with
  | none =>
    have hlen := (List.mergeSort_perm xs listed).length_eq
    rw [List.getLast?_eq_none_iff.1 hl, List.length_nil] at hlen
    exact absurd (List.length_eq_zero_iff.1 hlen.symm) h
  | some r =>
    obtain ⟨ys, zs, rfl, hy, hz⟩ := exists_append_of_getLast? listed_trans listed_total hl
    refine ⟨ys, r, zs, rfl, rfl, fun y hm => ?_, fun z hm => ?_⟩
    · exact Version.notAfter_iff.1 (hy y hm)
    · have hlt := Bool.eq_false_iff.1 (hz z hm)
      rwa [listed, ne_eq, Version.notAfter_iff, not_not] at hlt

/-- **The listing of releases loses, invents and misorders nothing**, and the latest release is
the last one listed among those of the highest precedence. -/
theorem releases_of_names (hn : (Job.on (fetchNames c owner repo) s).1 = .ok names)
    (hr : (Job.on (fetchReleases c owner repo) s).1 = .ok rs) :
    ∃ xs, List.Forall₂ (Names c.tagPrefix) (names.filter (isAccepted (pattern c))) xs
      ∧ rs.Perm xs
      ∧ rs.Pairwise (fun a b => ¬ b.version.Below a.version)
      ∧ (∀ v : Version, rs.filter (fun r => r.version.unbuilt = v.unbuilt)
          = xs.filter (fun r => r.version.unbuilt = v.unbuilt))
      ∧ ((Job.on (fetchLatest c owner repo) s).1 = .error (.noRelease (pattern c).source)
          ↔ ∀ n ∈ names, isAccepted (pattern c) n = false)
      ∧ ((∃ n ∈ names, isAccepted (pattern c) n = true) → ∃ ys r zs, xs = ys ++ r :: zs
          ∧ (Job.on (fetchLatest c owner repo) s).1 = .ok r
          ∧ (∀ y ∈ ys, ¬ r.version.Below y.version)
          ∧ ∀ z ∈ zs, z.version.Below r.version) := by
  obtain ⟨xs, hxs, rfl⟩ := exists_of_fetchReleases hn hr
  have hlatest := on_fetchLatest_of_releases hr
  have hperm : (xs.mergeSort listed).Perm xs := List.mergeSort_perm xs listed
  -- There is a release unless no name was accepted.
  have hnil : xs = [] ↔ ∀ n ∈ names, isAccepted (pattern c) n = false := by
    rw [← List.length_eq_zero_iff, ← hxs.length_eq, List.length_eq_zero_iff,
      List.filter_eq_nil_iff]
    simp only [Bool.not_eq_true]
  refine ⟨xs, hxs, hperm, ?_, ?_, ?_, ?_⟩
  · refine (List.pairwise_mergeSort listed_trans listed_total xs).imp (fun h => ?_)
    exact Version.notAfter_iff.1 h
  · intro v
    refine filter_mergeSort listed_trans listed_total (fun a _ b _ ha hb => ?_)
    exact Version.notAfter_of_unbuilt_eq ((of_decide_eq_true ha).trans (of_decide_eq_true hb).symm)
  · rw [hlatest, pick_eq_noRelease_iff, ← hnil, ← List.length_eq_zero_iff, hperm.length_eq,
      List.length_eq_zero_iff]
  · rintro ⟨n, hn, ha⟩
    rw [hlatest]
    apply exists_append_of_pick
    intro he
    have hno := hnil.1 he n hn
    rw [ha] at hno
    cases hno

/-! ## §4. A listing. -/

/-- The same dependency, where tags may carry suffixes. -/
def suffixedConfig : Config := { smallConfig with allowPrerelease := true }

/-- Two names of equal precedence, one of lower precedence between them and one that is no
release. -/
def mixedNames : List Text := ["v1.0.0", "v1.0.0-rc.1", "x", "v1.0.0+b"]

/-- A site where the host lists them. -/
def mixedSite : Site := (Site.fresh []).replying (pageOf mixedNames)

/-- What the accepted ones among `mixedNames` stand for. -/
def mixedReleases : List Release :=
  [⟨"v1.0.0", ⟨1, 0, 0, [], []⟩⟩, ⟨"v1.0.0-rc.1", ⟨1, 0, 0, [.word "rc", .number 1], []⟩⟩,
   ⟨"v1.0.0+b", ⟨1, 0, 0, [], ["b".toList]⟩⟩]

theorem latest_of_mixedSite :
    (Job.on (fetchReleases suffixedConfig "o" "r") mixedSite).1
        = .ok (mixedReleases.mergeSort listed)
      ∧ (mixedReleases.mergeSort listed).Pairwise (fun a b => ¬ b.version.Below a.version)
      ∧ ∃ ys r zs, (mixedReleases.mergeSort listed).Perm (ys ++ r :: zs)
          ∧ (Job.on (fetchLatest suffixedConfig "o" "r") mixedSite).1 = .ok r
          ∧ (∀ y ∈ ys, ¬ r.version.Below y.version)
          ∧ ∀ z ∈ zs, z.version.Below r.version := by
  have hn : (Job.on (fetchNames suffixedConfig "o" "r") mixedSite).1
      = .ok (mixedNames.map CodePoint.ofText) :=
    eq_ok_of_toOption (by decide +kernel)
  have hread : (accepted (pattern suffixedConfig) (mixedNames.map CodePoint.ofText)).mapM
      (release (pattern suffixedConfig)) = .ok mixedReleases :=
    eq_ok_of_toOption (by decide +kernel)
  have hr : (Job.on (fetchReleases suffixedConfig "o" "r") mixedSite).1
      = .ok (mixedReleases.mergeSort listed) := by
    rw [on_fetchReleases_of_names hn, releases, hread]
    rfl
  obtain ⟨xs, -, hperm, hsorted, -, -, hlast⟩ := releases_of_names hn hr
  have hsome : ∃ n ∈ mixedNames.map CodePoint.ofText,
      isAccepted (pattern suffixedConfig) n = true :=
    ⟨CodePoint.ofText "v1.0.0", by decide, by decide⟩
  obtain ⟨ys, r, zs, rfl, hok, hy, hz⟩ := hlast hsome
  exact ⟨hr, hsorted, ys, r, zs, hperm, hok, hy, hz⟩

end Listing
end Repin
