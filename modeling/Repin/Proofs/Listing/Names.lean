/-
  Repin.Proofs.Listing.Names
  ──────────────────────────
  **WHICH NAME STOPS A LISTING.**

  The pattern discards the names that it does not accept, and the reader of versions
  reads those that it accepts.  The two do not agree on every text: one accepted name
  whose part behind the prefix is not strict stops the whole listing.

    • `exists_of_mapM_eq_error` — a list is refused because of the first element that is,
    • `releases_or_stop` — the releases are fetched if every accepted name is strict
      behind the prefix; else they are refused because of the first name that is not.

  The names that stop a listing are of the three kinds that `TagPattern.IsStrict` rules
  out; `stopped_by_name` has one of each.
-/
import Repin.Proofs.Listing.Order
import Repin.Proofs.Tag.Pattern

namespace Repin
namespace Listing

/-! ## §1. The first element that is refused. -/

/-- A list is refused because of the first element that is. -/
theorem exists_of_mapM_eq_error {α β ε : Type} {f : α → Except ε β} {as : List α} {e : ε}
    (h : as.mapM f = .error e) :
    ∃ l a r bs, as = l ++ a :: r ∧ l.mapM f = .ok bs ∧ f a = .error e := by
  induction as with
  | nil => cases h
  | cons a as ih =>
    rw [List.mapM_cons] at h
    cases ha : f a with
    | error x =>
      rw [ha] at h
      cases h
      exact ⟨[], a, as, [], rfl, rfl, ha⟩
    | ok b =>
      have hrest : as.mapM f = .error e := by
        rw [ha] at h
        cases hm : as.mapM f with
        | error x =>
          rw [hm] at h
          exact h
        | ok bs =>
          rw [hm] at h
          cases h
      obtain ⟨l, c, r, bs, rfl, hl, hc⟩ := ih hrest
      refine ⟨a :: l, c, r, b :: bs, rfl, ?_, hc⟩
      rw [List.mapM_cons, ha, hl]
      rfl

/-- Every element of a list that is read is read. -/
theorem exists_of_mapM_of_mem {α β ε : Type} {f : α → Except ε β} {as : List α} {bs : List β}
    {a : α} (h : as.mapM f = .ok bs) (ha : a ∈ as) : ∃ b, f a = .ok b := by
  obtain ⟨b, -, hb⟩ := exists_of_mem_forall₂ (mapM_eq_ok_iff.1 h).flip ha
  exact ⟨b, hb⟩

/-! ## §2. Names and what stands behind the prefix. -/

/-- What an accepted name behind the prefix stands for. -/
theorem release_append (p : TagPattern) (rest : Text) :
    release p (p.start ++ rest) = match Version.read? rest with
      | some version => .ok { name := p.start ++ rest, version }
      | none => .error (.notVersion rest) := by
  unfold release Version.ofTag
  rw [Text.behind?_append]
  show (Version.parse rest).map _ = _
  unfold Version.parse
  cases Version.read? rest with
  | none => rfl
  | some v => rfl

/-- Every accepted name is strict behind the prefix. -/
def AllStrict (p : TagPattern) (names : List (List CodePoint)) : Prop :=
  ∀ rest, CodePoint.ofText (p.start ++ rest) ∈ names → p.accepts (p.start ++ rest) = true →
    TagPattern.IsStrict rest

/-- The names that are read are those that are strict behind the prefix. -/
theorem allStrict_iff {p : TagPattern} {names : List (List CodePoint)} :
    AllStrict p names ↔ ∃ rs, (accepted p names).mapM (release p) = .ok rs := by
  have hmem : ∀ t, t ∈ accepted p names ↔ CodePoint.ofText t ∈ names ∧ p.accepts t = true := by
    intro t
    unfold accepted
    rw [List.mem_filter, List.mem_filterMap]
    constructor
    · rintro ⟨⟨n, hn, ht⟩, ha⟩
      exact ⟨CodePoint.text?_eq_some_iff.1 ht ▸ hn, ha⟩
    · rintro ⟨hn, ha⟩
      exact ⟨⟨_, hn, CodePoint.text?_ofText t⟩, ha⟩
  constructor
  · intro h
    cases hm : (accepted p names).mapM (release p) with
    | ok rs => exact ⟨rs, rfl⟩
    | error e =>
      obtain ⟨l, t, r, -, hacc, -, ht⟩ := exists_of_mapM_eq_error hm
      have hin : t ∈ accepted p names := by
        rw [hacc]
        simp
      obtain ⟨hn, ha⟩ := (hmem t).1 hin
      obtain ⟨x, -, rfl⟩ := TagPattern.exists_shape ha
      obtain ⟨v, hv⟩ := (TagPattern.isSome_read?_iff ha).2 (h _ hn ha)
      rw [release_append, hv] at ht
      cases ht
  · rintro ⟨rs, hrs⟩ rest hn ha
    apply (TagPattern.isSome_read?_iff ha).1
    obtain ⟨r, hr⟩ := exists_of_mapM_of_mem hrs ((hmem _).2 ⟨hn, ha⟩)
    rw [release_append] at hr
    cases hv : Version.read? rest with
    | some v => exact ⟨v, rfl⟩
    | none =>
      rw [hv] at hr
      cases hr

/-- Names that are not all strict hold a first one that is not. -/
theorem exists_first_of_mapM {p : TagPattern} {names : List (List CodePoint)} {e : Refusal}
    (h : (accepted p names).mapM (release p) = .error e) :
    ∃ ns rest ms, names = ns ++ CodePoint.ofText (p.start ++ rest) :: ms
      ∧ AllStrict p ns ∧ p.accepts (p.start ++ rest) = true ∧ ¬ TagPattern.IsStrict rest
      ∧ e = .notVersion rest := by
  obtain ⟨l, t, r, bs, hacc, hl, ht⟩ := exists_of_mapM_eq_error h
  -- The accepted names are cut in two where the first one is refused, and so are all names.
  have hfilter := filter_isAccepted p names
  rw [hacc, List.map_append, List.map_cons] at hfilter
  obtain ⟨as, bs', rfl, has, hbs⟩ := List.filter_eq_append_iff.1 hfilter
  obtain ⟨ds, ms, rfl, hds, hin, -⟩ := List.filter_eq_cons_iff.1 hbs
  have ha : p.accepts t = true := by
    rwa [isAccepted_ofText] at hin
  obtain ⟨x, -, rfl⟩ := TagPattern.exists_shape ha
  have hrefused : Version.read? x.text = none ∧ e = .notVersion x.text := by
    rw [release_append] at ht
    cases hv : Version.read? x.text with
    | none =>
      rw [hv] at ht
      cases ht
      exact ⟨rfl, rfl⟩
    | some v =>
      rw [hv] at ht
      cases ht
  refine ⟨as ++ ds, x.text, ms, (List.append_assoc ..).symm, ?_, ha, ?_, hrefused.2⟩
  · have hbefore : accepted p (as ++ ds) = l := by
      apply List.map_injective_iff.2 (fun _ _ => CodePoint.ofText_inj.1)
      rw [← filter_isAccepted, List.filter_append, has, List.filter_eq_nil_iff.2 hds,
        List.append_nil]
    apply allStrict_iff.2
    rw [hbefore]
    exact ⟨bs, hl⟩
  · intro hs
    obtain ⟨v, hv⟩ := (TagPattern.isSome_read?_iff ha).2 hs
    rw [hrefused.1] at hv
    cases hv

/-! ## §3. Fetching. -/

variable {c : Config} {owner repo : Text} {s : Site} {names : List (List CodePoint)}

theorem on_fetchReleases_of_error {e : Refusal}
    (hn : (Job.on (fetchNames c owner repo) s).1 = .ok names)
    (he : (accepted (pattern c) names).mapM (release (pattern c)) = .error e) :
    (Job.on (fetchReleases c owner repo) s).1 = .error (.refused e) := by
  rw [on_fetchReleases_of_names hn, releases, he]
  rfl

/-- **The releases are fetched if every accepted name is strict behind the prefix, and are
refused because of the first one that is not.** -/
theorem releases_or_stop (hn : (Job.on (fetchNames c owner repo) s).1 = .ok names) :
    (AllStrict (pattern c) names ∧ ∃ rs, (Job.on (fetchReleases c owner repo) s).1 = .ok rs)
      ∨ ∃ ns rest ms, names = ns ++ CodePoint.ofText (c.tagPrefix ++ rest) :: ms
          ∧ AllStrict (pattern c) ns
          ∧ (pattern c).accepts (c.tagPrefix ++ rest) = true
          ∧ ¬ TagPattern.IsStrict rest
          ∧ (Job.on (fetchReleases c owner repo) s).1 = .error (.refused (.notVersion rest)) := by
  cases hm : (accepted (pattern c) names).mapM (release (pattern c)) with
  | ok rs =>
    refine .inl ⟨allStrict_iff.2 ⟨rs, hm⟩, rs.mergeSort listed, ?_⟩
    rw [on_fetchReleases_of_names hn, releases, hm]
    rfl
  | error e =>
    obtain ⟨ns, rest, ms, hnames, hns, ha, hs, rfl⟩ := exists_first_of_mapM hm
    exact .inr ⟨ns, rest, ms, hnames, hns, ha, hs, on_fetchReleases_of_error hn hm⟩

/-! ## §4. Names that stop a listing. -/

/-- A site where the host lists one release and one more name, as JSON spells it. -/
def siteListing (spelled : Text) : Site := (Site.fresh []).replying (pageOf ["v1.0.0", spelled])

/-- The release and the other name. -/
def twoNames (name : Text) : List (List CodePoint) :=
  ["v1.0.0".toList, name].map CodePoint.ofText

theorem releases_of_siteListing :
    (Job.on (fetchNames suffixedConfig "o" "r") (siteListing "v1.0.0-01")).1
        = .ok (twoNames "v1.0.0-01")
      ∧ ∃ rest, ¬ TagPattern.IsStrict rest
        ∧ (Job.on (fetchReleases suffixedConfig "o" "r") (siteListing "v1.0.0-01")).1
          = .error (.refused (.notVersion rest)) := by
  have hn : (Job.on (fetchNames suffixedConfig "o" "r") (siteListing "v1.0.0-01")).1
      = .ok (twoNames "v1.0.0-01") := eq_ok_of_toOption (by decide +kernel)
  refine ⟨hn, ?_⟩
  rcases releases_or_stop hn with ⟨-, rs, hrs⟩ | ⟨-, rest, -, -, -, -, hs, he⟩
  · have herror := on_fetchReleases_of_error hn (e := .notVersion "1.0.0-01")
      (eq_error_of_errorOf? (by decide +kernel))
    rw [hrs] at herror
    cases herror
  · exact ⟨rest, hs, he⟩

/-- **One accepted name can stop the listing**: a digit of another script or a line feed at the
end in any case, and a leading zero in a pre-release identifier where suffixes are allowed. -/
theorem stopped_by_name :
    (Job.on (fetchReleases smallConfig "o" "r") (siteListing "v1٣.0.0")).1
        = .error (.refused (.notVersion "1٣.0.0"))
      ∧ (Job.on (fetchReleases smallConfig "o" "r") (siteListing "v1.0.0\\n")).1
        = .error (.refused (.notVersion "1.0.0\n"))
      ∧ (Job.on (fetchReleases suffixedConfig "o" "r") (siteListing "v1.0.0-01")).1
        = .error (.refused (.notVersion "1.0.0-01")) := by
  have hdigit : (Job.on (fetchNames smallConfig "o" "r") (siteListing "v1٣.0.0")).1
      = .ok (twoNames "v1٣.0.0") := eq_ok_of_toOption (by decide +kernel)
  have hfeed : (Job.on (fetchNames smallConfig "o" "r") (siteListing "v1.0.0\\n")).1
      = .ok (twoNames "v1.0.0\n") := eq_ok_of_toOption (by decide +kernel)
  have hzero : (Job.on (fetchNames suffixedConfig "o" "r") (siteListing "v1.0.0-01")).1
      = .ok (twoNames "v1.0.0-01") := eq_ok_of_toOption (by decide +kernel)
  refine ⟨on_fetchReleases_of_error hdigit (eq_error_of_errorOf? ?_),
    on_fetchReleases_of_error hfeed (eq_error_of_errorOf? ?_),
    on_fetchReleases_of_error hzero (eq_error_of_errorOf? ?_)⟩
  · decide +kernel
  · decide +kernel
  · decide +kernel

end Listing
end Repin
