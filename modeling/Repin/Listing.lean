/-
  Repin.Listing
  ─────────────
  **THE TAGS THAT THE HOST LISTS.**

  One request fetches one page of tag names.  A listing is an array of records
  with a name each; a single other element makes the whole listing unusable.

  `Listing.releases` keeps the names that have the shape of a release tag, reads
  their versions and orders them by precedence, oldest first; names of equal
  precedence keep their order.  The last one is the latest release.

  The tags of a repository are listed below the address of the host:

      HOST/repos/OWNER/REPO/tags?per_page=N
-/
import Repin.Config.Basic
import Repin.Site
import Repin.Tag.Pattern
import Repin.Url.Reader
import Repin.Version.Order

namespace Repin
namespace Listing

/-! ## §1. Names. -/

/-- The name of a record. -/
def name? : Json → Option (List CodePoint)
  | .object ms =>
    match Json.Members.get? (CodePoint.ofText "name") ms with
    | some (.string s) => some s
    | _ => none
  | _ => none

/-- The names of the records, or the first element that is no record with a name. -/
def names : List Json → Except Json (List (List CodePoint))
  | [] => .ok []
  | record :: rest =>
    match name? record with
    | none => .error record
    | some n =>
      match names rest with
      | .ok ns => .ok (n :: ns)
      | .error r => .error r

/-! ## §2. Releases. -/

/-- The release that a name stands for, for a name that the pattern accepts. -/
def release (p : TagPattern) (name : Text) : Except Refusal Release :=
  (Version.ofTag p.start name).map (fun version => { name, version })

/-- The names that the pattern accepts. -/
def accepted (p : TagPattern) (names : List (List CodePoint)) : List Text :=
  (names.filterMap CodePoint.text?).filter p.accepts

/-- The shape of the release tags that a configuration asks for. -/
def pattern (c : Config) : TagPattern := ⟨c.tagPrefix, c.allowPrerelease⟩

/-- The releases among the names, oldest first. -/
def releases (p : TagPattern) (names : List (List CodePoint)) : Except Refusal (List Release) := do
  let rs ← (accepted p names).mapM (release p)
  return rs.mergeSort (fun a b => Version.notAfter a.version b.version)

/-! ## §3. The host. -/

/-- The host that lists the tags. -/
structure Host where
  /-- Where its interface is found. -/
  base : Url
  /-- The credentials for it, if there are any. -/
  authorization : Option Text
  /-- How many seconds a reply may take. -/
  timeout : Option Double
  perPage : PageSize
  deriving DecidableEq, Repr

/-- The credentials that a token gives; an empty one gives none. -/
def bearer : Option Text → Option Text
  | some (c :: token) => some ("Bearer " ++ c :: token)
  | _ => none

/-- The host that a configuration names.  A user in its address takes precedence
over the token, which has to be ASCII in any case. -/
def host (c : Config) : Except Fault Host :=
  match Url.read? c.apiUrl with
  | none => .error .badUrl
  | some base =>
    if (c.apiToken.getD []).all (fun x => x.toNat < 0x80) then
      .ok { base, authorization := base.credentials?.or (bearer c.apiToken),
            timeout := c.httpTimeout, perPage := c.perPage }
    else .error .badToken

/-- The address of the tags of a repository.  Owner and repository are taken as they
are, so their text can end the path or lead out of it. -/
def Host.address? (h : Host) (owner repo : Text) : Option Url :=
  (Url.read? ("/repos/" ++ owner ++ '/' :: repo ++ "/tags")).map (fun tags =>
    { h.base.under tags with query := some ("per_page=" ++ Text.digits h.perPage.val) })

/-- The request for the tags of a repository. -/
def Host.request (h : Host) (address : Url) : Request :=
  { url := address.text, accept := "application/vnd.github+json",
    authorization := h.authorization, timeout := h.timeout }

/-! ## §4. Fetching. -/

/-- The names that a reply lists. -/
def namesOf (owner repo url : Text) : Reply → Except Fault (List (List CodePoint))
  | .failed message => .error (.listingFailed owner repo message)
  | .response status location body =>
    if Http.isSuccess status then
      match Json.ofBytes? body with
      | none => .error (.listingNotJson owner repo)
      | some (.array records) =>
        (names records).mapError (fun record => .recordMalformed owner repo record)
      | some _ => .error (.listingNotArray owner repo)
    else .error (.listingFailed owner repo (Http.statusMessage url status location))

/-- Fetches the names of one page of tags. -/
def fetchNames (c : Config) (owner repo : Text) : Job (List (List CodePoint)) := do
  let h ← Job.ofExcept id (host c)
  match h.address? owner repo with
  | none => throw .badUrl
  | some address =>
    let r := h.request address
    Job.ofExcept id (namesOf owner repo r.url (← Job.request r))

/-- Fetches the releases, oldest first. -/
def fetchReleases (c : Config) (owner repo : Text) : Job (List Release) := do
  Job.ofExcept .refused (releases (pattern c) (← fetchNames c owner repo))

/-- The last of the releases. -/
def pick (p : TagPattern) (rs : List Release) : Except Fault Release :=
  match rs.getLast? with
  | some r => .ok r
  | none => .error (.noRelease p.source)

/-- Fetches the latest release. -/
def fetchLatest (c : Config) (owner repo : Text) : Job Release := do
  Job.ofExcept id (pick (pattern c) (← fetchReleases c owner repo))

end Listing
end Repin
