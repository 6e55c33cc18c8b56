/-
  Repin.Proofs.Listing.Fetching
  ─────────────────────────────
  **FETCHING IS ALL OR NOTHING.**

  Fetching makes one request.  What comes back lists names, or it does not, and then
  fetching fails in one of four ways (`Unfetched`) and in no other:

      the reply carries records, and each has a name  ↔  the names are fetched

  A reply carries records if its status is a success and its body is a document of an
  array (`Carries`).  The name of a record is the last one that is written for it
  (`Named`).  One record without a name makes the whole listing unusable, and the first
  such record is what the fault shows (`fetchNames_of_host`).
-/
import Repin.Proofs.Json.Grammar
import Repin.Proofs.Listing.Names

namespace Repin
namespace Listing

/-! ## §1. Records and their names. -/

/-- The record is an object, and the last name that is written for it is the string `n`. -/
def Named (record : Json) (n : List CodePoint) : Prop :=
  ∃ written, record = .object (Json.Members.ofWritten written)
    ∧ Json.Members.IsLast (CodePoint.ofText "name") (.string n) written

/-- The name of an object. -/
theorem name?_object {ms : Json.Members} {n : List CodePoint} :
    name? (.object ms) = some n ↔ ms.get? (CodePoint.ofText "name") = some (.string n) := by
  simp only [name?]
  cases ms.get? (CodePoint.ofText "name") with
  | none => simp
  | some v => cases v <;> simp

theorem name?_of_named {record : Json} {n : List CodePoint} (h : Named record n) :
    name? record = some n := by
  obtain ⟨written, rfl, hlast⟩ := h
  exact name?_object.2 (Json.Members.get?_ofWritten.2 hlast)

/-- A record that stands in a document has the name that the last member says. -/
theorem named_iff {record : Json} {n : List CodePoint}
    (h : ∃ s r, (Json.Phrase.value record).At s r) : Named record n ↔ name? record = some n := by
  constructor
  · exact name?_of_named
  · intro hn
    obtain ⟨s, r, h⟩ := h
    cases record with
    | object ms =>
      obtain ⟨written, rfl⟩ := Json.exists_written h
      exact ⟨written, rfl, Json.Members.get?_ofWritten.1 (name?_object.1 hn)⟩
    | _ => cases hn

/-! ## §2. All names or the first record without one. -/

theorem names_eq_ok_iff {records : List Json} {ns : List (List CodePoint)} :
    names records = .ok ns ↔ List.Forall₂ (fun record n => name? record = some n) records ns := by
  induction records generalizing ns with
  | nil =>
    rw [List.forall₂_nil_left_iff]
    exact ⟨fun h => by cases h; rfl, fun h => by rw [h]; rfl⟩
  | cons record records ih =>
    rw [List.forall₂_cons_left_iff]
    constructor
    · intro h
      unfold names at h
      split at h
      · cases h
      · next n hn =>
        split at h
        · next ms hms =>
          cases h
          exact ⟨n, ms, hn, ih.1 hms, rfl⟩
        · cases h
    · intro h
      obtain ⟨n, ms, hn, hms, rfl⟩ := h
      simp only [names, hn, ih.2 hms]

theorem names_append {before behind : List Json} {bad : Json}
    (hbefore : ∀ record ∈ before, ∃ n, name? record = some n) (hbad : name? bad = none) :
    names (before ++ bad :: behind) = .error bad := by
  induction before with
  | nil => simp only [List.nil_append, names, hbad]
  | cons record before ih =>
    obtain ⟨⟨n, hn⟩, hbefore⟩ := List.forall_mem_cons.1 hbefore
    simp only [List.cons_append, names, hn, ih hbefore]

/-! ## §3. What a reply lists. -/

variable {owner repo url : Text} {reply : Reply} {records : List Json}

/-- The reply is a success, and its body is a document of an array. -/
def Carries (reply : Reply) (records : List Json) : Prop :=
  ∃ status location body points, reply = .response status location body
    ∧ (200 ≤ status ∧ status < 300) ∧ Text.decodeDetected? body = some points
    ∧ Json.IsDocument points (.array records)

/-- The ways in which a listing is not fetched. -/
inductive Unfetched (owner repo : Text) : Fault → Prop
  /-- There is no reply, or its status is no success. -/
  | failed (reason : Text) : Unfetched owner repo (.listingFailed owner repo reason)
  | notJson : Unfetched owner repo (.listingNotJson owner repo)
  | notArray : Unfetched owner repo (.listingNotArray owner repo)
  /-- One element is no record with a name. -/
  | malformed (record : Json) : Unfetched owner repo (.recordMalformed owner repo record)

theorem ofBytes?_eq_some_iff {body : Bytes} {v : Json} : Json.ofBytes? body = some v ↔
    ∃ points, Text.decodeDetected? body = some points ∧ Json.IsDocument points v := by
  unfold Json.ofBytes?
  rw [Option.bind_eq_bind, Option.bind_eq_some_iff]
  simp only [← Json.document_eq_ok_iff]
  constructor
  · intro h
    obtain ⟨points, hpoints, h⟩ := h
    exact ⟨points, hpoints, eq_ok_of_toOption h⟩
  · intro h
    obtain ⟨points, hpoints, h⟩ := h
    exact ⟨points, hpoints, by rw [h]; rfl⟩

theorem isSuccess_iff {status : Nat} :
    Http.isSuccess status = true ↔ 200 ≤ status ∧ status < 300 := by
  unfold Http.isSuccess
  rw [Bool.and_eq_true, decide_eq_true_eq, decide_eq_true_eq]

theorem namesOf_of_carries (h : Carries reply records) : namesOf owner repo url reply
    = (names records).mapError (fun record => .recordMalformed owner repo record) := by
  obtain ⟨status, location, body, points, rfl, hstatus, hpoints, hv⟩ := h
  unfold namesOf
  simp only [isSuccess_iff.2 hstatus, if_true, ofBytes?_eq_some_iff.2 ⟨points, hpoints, hv⟩]

/-- A reply carries records, or it is of no use. -/
theorem carries_or_unfetched (owner repo url : Text) (reply : Reply) :
    (∃ records, Carries reply records)
      ∨ ∃ f, namesOf owner repo url reply = .error f ∧ Unfetched owner repo f := by
  cases reply with
  | failed message => exact .inr ⟨_, rfl, .failed message⟩
  | response status location body =>
    by_cases hs : Http.isSuccess status = true
    · cases hb : Json.ofBytes? body with
      | none =>
        refine .inr ⟨_, ?_, .notJson⟩
        simp only [namesOf, hs, if_true, hb]
      | some v =>
        cases v with
        | array records =>
          obtain ⟨points, hpoints, hv⟩ := ofBytes?_eq_some_iff.1 hb
          exact .inl ⟨records, _, _, _, points, rfl, isSuccess_iff.1 hs, hpoints, hv⟩
        | _ =>
          refine .inr ⟨_, ?_, .notArray⟩
          simp only [namesOf, hs, if_true, hb]
    · refine .inr ⟨_, ?_, .failed (Http.statusMessage url status location)⟩
      simp only [namesOf, hs, if_false, Bool.false_eq_true]

/-- The records of a reply stand in its body. -/
theorem exists_at_of_carries {record : Json} (h : Carries reply records) (hr : record ∈ records) :
    ∃ s r, (Json.Phrase.value record).At s r := by
  obtain ⟨-, -, -, points, -, -, -, r, hv, -⟩ := h
  exact Json.exists_at_of_mem_array hv hr

theorem unfetched_of_namesOf {f : Fault} (h : namesOf owner repo url reply = .error f) :
    Unfetched owner repo f := by
  rcases carries_or_unfetched owner repo url reply with ⟨records, hc⟩ | ⟨g, hg, hu⟩
  · rw [namesOf_of_carries hc] at h
    cases hn : names records with
    | ok ns =>
      rw [hn] at h
      cases h
    | error record =>
      rw [hn] at h
      cases h
      exact .malformed record
  · rw [h] at hg
    cases hg
    exact hu

/-- **A reply lists names if it carries records, and each of these has its name.** -/
theorem namesOf_eq_ok_iff {ns : List (List CodePoint)} : namesOf owner repo url reply = .ok ns ↔
    ∃ records, Carries reply records ∧ List.Forall₂ Named records ns := by
  have hnames : ∀ {records}, Carries reply records →
      (namesOf owner repo url reply = .ok ns ↔ List.Forall₂ Named records ns) := by
    intro records hc
    have hnamed : List.Forall₂ Named records ns ↔ names records = .ok ns := by
      rw [names_eq_ok_iff]
      have hstand : ∀ record ∈ records, ∃ s r, (Json.Phrase.value record).At s r :=
        fun record => exists_at_of_carries hc
      constructor
      · exact fun h => h.imp (fun _ _ hn => name?_of_named hn)
      · intro h
        refine ((List.forall₂_and_left _ _).2 ⟨hstand, h⟩).imp ?_
        intro record n hn
        exact (named_iff hn.1).2 hn.2
    rw [hnamed, namesOf_of_carries hc]
    cases names records with
    | ok ms => simp [Except.mapError]
    | error record => simp [Except.mapError]
  constructor
  · intro h
    rcases carries_or_unfetched owner repo url reply with ⟨records, hc⟩ | ⟨g, hg, -⟩
    · exact ⟨records, hc, (hnames hc).1 h⟩
    · rw [h] at hg
      cases hg
  · intro h
    obtain ⟨records, hc, hns⟩ := h
    exact (hnames hc).2 hns

/-- The first record without a name is what the fault shows, whatever is behind it. -/
theorem namesOf_of_malformed {before behind : List Json} {bad : Json}
    (h : Carries reply (before ++ bad :: behind))
    (hbefore : ∀ record ∈ before, ∃ n, Named record n) (hbad : ¬ ∃ n, Named bad n) :
    namesOf owner repo url reply = .error (.recordMalformed owner repo bad) := by
  have hnone : name? bad = none := by
    apply Option.eq_none_iff_forall_ne_some.2
    intro n hn
    exact hbad ⟨n, (named_iff (exists_at_of_carries h (by simp))).2 hn⟩
  have hsome : ∀ record ∈ before, ∃ n, name? record = some n := by
    intro record hr
    obtain ⟨n, hn⟩ := hbefore record hr
    exact ⟨n, name?_of_named hn⟩
  rw [namesOf_of_carries h, names_append hsome hnone]
  rfl

/-! ## §4. Fetching. -/

/-- **Fetching is all or nothing.**  It makes one request, and it fails in one of the ways of an
unfetched listing only.  It gives names if and only if the reply carries records that all have
one, and these are the names, in order; else the first record without a name is shown. -/
theorem fetchNames_of_host {c : Config} {h : Host} {address : Url} (hhost : host c = .ok h)
    (haddress : h.address? owner repo = some address) (s : Site) :
    ∃ result, Job.on (fetchNames c owner repo) s = (result,
        { s with replies := s.replies.tail, log := s.log ++ [.requested (h.request address)] })
      ∧ (∀ f, result = .error f → Unfetched owner repo f)
      ∧ (∀ ns, result = .ok ns ↔
          ∃ records, Carries (Job.nextReply s.replies) records ∧ List.Forall₂ Named records ns)
      ∧ ∀ before bad behind, Carries (Job.nextReply s.replies) (before ++ bad :: behind) →
          (∀ record ∈ before, ∃ n, Named record n) → (¬ ∃ n, Named bad n) →
          result = .error (.recordMalformed owner repo bad) := by
  refine ⟨namesOf owner repo (h.request address).url (Job.nextReply s.replies), ?_,
    fun f hf => unfetched_of_namesOf hf, fun ns => namesOf_eq_ok_iff,
    fun before bad behind hc hbefore hbad => namesOf_of_malformed hc hbefore hbad⟩
  unfold fetchNames
  rw [hhost, Job.on_bind_ok (Job.on_ofExcept_ok id h s)]
  simp only [haddress]
  rw [Job.on_bind_ok (Job.on_request _ s)]
  cases namesOf owner repo (h.request address).url (Job.nextReply s.replies) with
  | ok ns => rfl
  | error f => rfl

/-- A site where the host replies with a text. -/
def siteReplying (body : Text) : Site := (Site.fresh []).replying body

/-- Two records, the first of which is written with two names. -/
def twoRecords : Text := "[\x7b\"name\": 1, \"name\": \"v1\"\x7d, \x7b\"name\": \"v2\"\x7d]"

/-- A record, an array and an object without a name. -/
def mixedElements : Text := "[\x7b\"name\": \"v1\"\x7d, [], \x7b\x7d]"

/-- A record, the empty array and one more element. -/
def isMixed : Json → Bool
  | .array [record, .array [], _] => (name? record).isSome
  | _ => false

theorem exists_of_isMixed {v : Json} (h : isMixed v = true) :
    ∃ record last n, v = .array ([record] ++ .array [] :: [last]) ∧ name? record = some n := by
  unfold isMixed at h
  split at h
  · obtain ⟨n, hn⟩ := Option.isSome_iff_exists.1 h
    exact ⟨_, _, n, rfl, hn⟩
  · cases h

theorem fetchNames_of_siteReplying :
    (∃ records, Carries (Job.nextReply (siteReplying twoRecords).replies) records
        ∧ List.Forall₂ Named records (["v1".toList, "v2".toList].map CodePoint.ofText))
      ∧ (Job.on (fetchNames smallConfig "o" "r") (siteReplying mixedElements)).1
          = .error (.recordMalformed "o" "r" (.array [])) := by
  have haddress : ((host smallConfig).toOption.bind (fun h => h.address? "o" "r")).isSome
      = true := by decide +kernel
  obtain ⟨address, haddress⟩ := Option.isSome_iff_exists.1 haddress
  obtain ⟨h, hhost, haddress⟩ := Option.bind_eq_some_iff.1 haddress
  have hhost := eq_ok_of_toOption hhost
  constructor
  · obtain ⟨result, hon, -, hok, -⟩ :=
      fetchNames_of_host hhost haddress (siteReplying twoRecords)
    apply (hok _).1
    have hresult : (Job.on (fetchNames smallConfig "o" "r") (siteReplying twoRecords)).1
        = .ok (["v1".toList, "v2".toList].map CodePoint.ofText) :=
      eq_ok_of_toOption (by decide +kernel)
    rw [hon] at hresult
    exact hresult
  · obtain ⟨result, hon, -, -, hbad⟩ :=
      fetchNames_of_host hhost haddress (siteReplying mixedElements)
    rw [hon]
    have hbody : Text.decodeDetected? (Text.encode mixedElements)
        = some (CodePoint.ofText mixedElements) := by decide +kernel
    have hshape : (Json.document (CodePoint.ofText mixedElements)).toOption.any isMixed = true := by
      decide +kernel
    obtain ⟨v, hv, hshape⟩ := (Option.any_eq_true _ _).1 hshape
    obtain ⟨record, last, n, rfl, hn⟩ := exists_of_isMixed hshape
    have hcarries : Carries (Job.nextReply (siteReplying mixedElements).replies)
        ([record] ++ .array [] :: [last]) :=
      ⟨200, none, _, _, rfl, by decide, hbody, Json.document_eq_ok_iff.1 (eq_ok_of_toOption hv)⟩
    apply hbad [record] (.array []) [last] hcarries
    · intro r hr
      rw [List.mem_singleton.1 hr]
      exact ⟨n, (named_iff (exists_at_of_carries hcarries (by simp))).2 hn⟩
    · intro h
      obtain ⟨m, written, he, -⟩ := h
      cases he

end Listing
end Repin
