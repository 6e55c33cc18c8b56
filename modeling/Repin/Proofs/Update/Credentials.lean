/-
  Repin.Proofs.Update.Credentials
  ───────────────────────────────
  **THE TOKEN REACHES THE REQUEST ONLY.**

  Two configurations that differ in the token lead to two runs that go in step.  What goes
  in step is said of two jobs at once:

      Parallel a b x y  —  from sites with the same files, replies and exits, `x` and `y` end
                           with the same result and on sites that are the same again, and what
                           they have done is the same but for the credentials of the requests,
                           which are `a` in the one and `b` in the other

  Jobs that look neither at the credentials nor at the log are in step with themselves, and
  sequencing keeps jobs in step (`Parallel.bind`).  The token is read where the host of the
  listing is made, and there alone, so the two runs are in step (`parallel_run`).

  The credentials of a request are those of the token, unless the address of the host names
  a user (`credentials`).
-/
import Repin.Proofs.Update.Convergence

namespace Repin

/-! ## §1. Jobs in step. -/

/-- The event with the given credentials, if it is a request. -/
def Event.withCredentials (a : Option Text) : Event → Event
  | .requested r => .requested { r with authorization := a }
  | e => e

/-- The request that an event sends, if it sends one. -/
def Event.request? : Event → Option Request
  | .requested r => some r
  | _ => none

/-- The site with another log. -/
def Site.withLog (s : Site) (l : List Event) : Site := { s with log := l }

namespace Job

variable {α β ε : Type} {a b : Option Text}

/-- The two jobs do the same, whatever has been done before, but that the requests of the
first one have the credentials `a` and those of the second one `b`. -/
def Parallel (a b : Option Text) (x y : Job α) : Prop :=
  ∀ (s : Site) (l m : List Event), ∃ (r : Except Fault α) (t : Site) (es : List Event),
    on x (s.withLog l) = (r, t.withLog (l ++ es.map (Event.withCredentials a)))
      ∧ on y (s.withLog m) = (r, t.withLog (m ++ es.map (Event.withCredentials b)))

namespace Parallel

/-- A job without requests that gives its result and its site whatever the log is, and that
notes the same events. -/
theorem of_events {x : Job α} (r : Site → Except Fault α) (t : Site → Site) (es : List Event)
    (hno : ∀ c, es.map (Event.withCredentials c) = es)
    (h : ∀ s l, on x (s.withLog l) = (r s, (t s).withLog (l ++ es))) : Parallel a b x x := by
  intro s l m
  refine ⟨r s, t s, es, ?_, ?_⟩
  · rw [hno, h]
  · rw [hno, h]

/-- A job that notes nothing. -/
theorem of_silent {x : Job α} (r : Site → Except Fault α) (t : Site → Site)
    (h : ∀ s l, on x (s.withLog l) = (r s, (t s).withLog l)) : Parallel a b x x := by
  refine of_events r t [] (fun _ => rfl) (fun s l => ?_)
  rw [h, List.append_nil]

protected theorem pure (v : α) : Parallel a b (pure v) (pure v) :=
  of_silent (fun _ => .ok v) id (fun _ _ => rfl)

protected theorem throw (f : Fault) : Parallel a b (throw f : Job α) (throw f) :=
  of_silent (fun _ => .error f) id (fun _ _ => rfl)

/-- **Sequencing keeps jobs in step.** -/
protected theorem bind {x y : Job α} {f g : α → Job β} (hxy : Parallel a b x y)
    (hfg : ∀ v, Parallel a b (f v) (g v)) : Parallel a b (x >>= f) (y >>= g) := by
  intro s l m
  obtain ⟨r, t, es, hx, hy⟩ := hxy s l m
  cases r with
  | error e => exact ⟨.error e, t, es, on_bind_error hx f, on_bind_error hy g⟩
  | ok v =>
    obtain ⟨r, u, fs, hf, hg⟩ := hfg v t (l ++ es.map (Event.withCredentials a))
      (m ++ es.map (Event.withCredentials b))
    refine ⟨r, u, es ++ fs, ?_, ?_⟩
    · rw [on_bind_ok hx, hf, List.map_append, List.append_assoc]
    · rw [on_bind_ok hy, hg, List.map_append, List.append_assoc]

protected theorem ofExcept (f : ε → Fault) (r : Except ε α) :
    Parallel a b (ofExcept f r) (ofExcept f r) := by
  cases r with
  | error e => exact .throw (f e)
  | ok v => exact .pure v

protected theorem say (m : Text) : Parallel a b (say m) (say m) :=
  of_events (fun _ => .ok ()) id [.printed (m ++ ['\n'])] (fun _ => rfl) (fun _ _ => rfl)

protected theorem announce (m : Text) : Parallel a b (announce m) (announce m) := .say _

protected theorem start (c : Call) : Parallel a b (start c) (start c) :=
  of_events (fun s => .ok (nextExit s.exits)) (fun s => { s with exits := s.exits.tail })
    [.called c] (fun _ => rfl) (fun s l => on_start c (s.withLog l))

protected theorem readText (p : Path) : Parallel a b (readText p) (readText p) :=
  of_silent (fun s => s.textAt p) id (fun s l => on_readText p (s.withLog l))

protected theorem writeText (p : Path) (m : Text) :
    Parallel a b (writeText p m) (writeText p m) := by
  refine of_silent (fun s => (on (writeText p m) s).1) (fun s => (on (writeText p m) s).2) ?_
  intro s l
  cases hw : s.tree.write s.here p (Text.encode m) with
  | error e =>
    rw [on_writeText_error hw]
    exact on_writeText_error (s := s.withLog l) hw
  | ok tree =>
    rw [on_writeText_ok hw]
    exact on_writeText_ok (s := s.withLog l) hw

/-- Requests that differ in their credentials are in step. -/
protected theorem request (r : Request) :
    Parallel a b (request { r with authorization := a }) (request { r with authorization := b }) :=
  fun s l m => ⟨.ok (nextReply s.replies), { s with replies := s.replies.tail }, [.requested r],
    on_request _ (s.withLog l), on_request _ (s.withLog m)⟩

protected theorem forM {f : α → Job PUnit} (hf : ∀ v, Parallel a b (f v) (f v)) (vs : List α) :
    Parallel a b (vs.forM f) (vs.forM f) := by
  induction vs with
  | nil => exact .pure _
  | cons v vs ih =>
    show Parallel a b (f v >>= fun _ => vs.forM f) (f v >>= fun _ => vs.forM f)
    exact (hf v).bind (fun _ => ih)

end Parallel
end Job

/-! ## §2. The host of the listing. -/

/-- The configuration with another token. -/
def Config.withToken (c : Config) (token : Option Text) : Config := { c with apiToken := token }

namespace Listing

/-- The host at an address, asked with the given credentials. -/
def hostAt (c : Config) (base : Url) (authorization : Option Text) : Host :=
  { base, authorization, timeout := c.httpTimeout, perPage := c.perPage }

/-- A token that can be sent: one of ASCII characters, or none. -/
def IsSendable (token : Option Text) : Prop := ∀ x ∈ token.getD [], x.toNat < 0x80

/-- The credentials that the address of the host holds, if it names a user. -/
def addressCredentials (c : Config) : Option Text := (Url.read? c.apiUrl).bind Url.credentials?

/-- The credentials of the requests that are made with a token: those of the address, and
without any there those of the token. -/
def credentials (c : Config) (token : Option Text) : Option Text :=
  (addressCredentials c).or (bearer token)

variable {c : Config} {t u : Option Text}

/-- The token goes into the credentials of the host. -/
theorem host_withToken (ht : IsSendable t) :
    host (c.withToken t) = match Url.read? c.apiUrl with
      | none => .error .badUrl
      | some base => .ok (hostAt c base (credentials c t)) := by
  unfold host hostAt credentials addressCredentials
  show (match Url.read? c.apiUrl with
    | none => _
    | some base => if (t.getD []).all (fun x => x.toNat < 0x80) then _ else _) = _
  cases Url.read? c.apiUrl with
  | none => rfl
  | some base =>
    have hall : (t.getD []).all (fun x => x.toNat < 0x80) = true :=
      List.all_eq_true.2 (fun x hx => decide_eq_true (ht x hx))
    simp only [hall, if_true]
    rfl

/-- Fetching the names is in step. -/
theorem parallel_fetchNames (ht : IsSendable t) (hu : IsSendable u) (owner repo : Text) :
    Job.Parallel (credentials c t) (credentials c u) (fetchNames (c.withToken t) owner repo)
      (fetchNames (c.withToken u) owner repo) := by
  unfold fetchNames
  rw [host_withToken ht, host_withToken hu]
  cases Url.read? c.apiUrl with
  | none => exact .throw .badUrl
  | some base =>
    -- Both hosts are the same but for their credentials, and so are the two requests.
    show Job.Parallel _ _
      (match (hostAt c base (credentials c t)).address? owner repo with
        | none => _
        | some address => _)
      (match (hostAt c base (credentials c t)).address? owner repo with
        | none => _
        | some address => _)
    cases (hostAt c base (credentials c t)).address? owner repo with
    | none => exact .throw .badUrl
    | some address =>
      exact .bind (.request ((hostAt c base none).request address)) fun reply => .ofExcept id _

end Listing

/-! ## §3. The run. -/

namespace Update

variable {c : Config} {a b t u : Option Text}

theorem parallel_readPin (c : Config) : Job.Parallel a b (readPin c) (readPin c) := by
  unfold readPin Manifest.readPin Manifest.read
  refine .bind (.announce _) fun _ => .bind ?_ fun pin => .bind (.say _) fun _ => .pure _
  exact .bind (.readText _) fun text => .ofExcept _ _

theorem parallel_fetchLatest (ht : Listing.IsSendable t) (hu : Listing.IsSendable u) :
    Job.Parallel (Listing.credentials c t) (Listing.credentials c u) (fetchLatest (c.withToken t))
      (fetchLatest (c.withToken u)) := by
  unfold fetchLatest Listing.fetchReleases
  rw [Listing.host_withToken ht, Listing.host_withToken hu]
  cases Url.read? c.apiUrl with
  | none => exact .throw .badUrl
  | some base =>
    -- The host that is made here is not used: the one that is asked is made again.
    have hrest : Job.Parallel (Listing.credentials c t) (Listing.credentials c u) _ _ :=
      .bind (.announce "Getting latest version") fun _ =>
        .bind (.bind (Listing.parallel_fetchNames ht hu c.owner c.repo) fun names =>
          .ofExcept Fault.refused (Listing.releases (Listing.pattern c) names)) fun rs =>
        .bind (.forM (fun r : Release => .say ("  * " ++ r.name)) rs) fun _ =>
        .bind (.ofExcept id (Listing.pick (Listing.pattern c) rs)) fun latest =>
        .bind (.say ("  Latest tag: " ++ latest.name)) fun _ => .pure latest
    exact hrest

theorem parallel_changeManifest (c : Config) (pin : Pin) (latest : Release) (bump : Bump) :
    Job.Parallel a b (changeManifest c pin latest bump) (changeManifest c pin latest bump) := by
  unfold changeManifest Manifest.bumpVersion Manifest.replaceAll Manifest.read
  refine .bind (.announce _) fun _ => .bind ?_ fun change => .bind (.say _) fun _ =>
    .bind ?_ fun count => .bind (.say _) fun _ => .pure _
  · refine .bind (.readText _) fun text => .bind (.ofExcept _ _) fun p => ?_
    obtain ⟨change, written⟩ := p
    exact .bind (.writeText _ _) fun _ => .pure _
  · exact .bind (.readText _) fun text => .bind (.writeText _ _) fun _ => .pure _

theorem parallel_runStep (c : Config) (args : List Text) (fault : Obstacle → Fault) :
    Job.Parallel a b (runStep c args fault) (runStep c args fault) := by
  unfold runStep
  refine .bind (.start _) fun exit => ?_
  split
  · exact .pure ()
  · exact .throw _

theorem parallel_concluded (c : Config) (skipPublish : Bool) (change : Option VersionChange) :
    Job.Parallel a b (concluded c skipPublish change) (concluded c skipPublish change) := by
  cases change with
  | none => exact .bind (.say _) fun _ => .pure _
  | some change =>
    refine .bind (.bind (.announce _) fun _ => parallel_runStep c _ _) fun _ => ?_
    cases skipPublish with
    | true => exact .bind (.say _) fun _ => .pure _
    | false =>
      refine .bind (.bind (.announce _) fun _ => .forM (fun args => ?_) _) fun _ =>
        .bind (.say _) fun _ => .pure _
      exact .bind (.say _) fun _ => parallel_runStep c args _

/-- **Runs with different tokens are in step.** -/
theorem parallel_run (ht : Listing.IsSendable t) (hu : Listing.IsSendable u) (skipPublish : Bool) :
    Job.Parallel (Listing.credentials c t) (Listing.credentials c u)
      (run (c.withToken t) skipPublish) (run (c.withToken u) skipPublish) := by
  rw [run_eq, run_eq]
  refine .bind (.bind (parallel_readPin c) fun pin => .bind (parallel_fetchLatest ht hu)
    fun latest => ?_) fun change => parallel_concluded c skipPublish change
  show Job.Parallel _ _ (decided c pin latest) (decided c pin latest)
  unfold decided
  split
  · exact .pure none
  · exact .bind (.say _) fun _ =>
      .bind (parallel_changeManifest c pin latest _) fun change => .pure _

/-- **The token reaches nothing but the credentials of the request.**  Two runs that differ in
the token end with the same result and on sites with the same files, and what they print, start
and request is the same but for the credentials.  These are the token's, if there is one, unless
the address of the host names a user. -/
theorem run_of_tokens (ht : Listing.IsSendable t) (hu : Listing.IsSendable u) (skipPublish : Bool)
    (s : Site) :
    (∃ (result : Except Fault Outcome) (after : Site) (events : List Event),
      Job.on (run (c.withToken t) skipPublish) s
        = (result, after.withLog
            (s.log ++ events.map (Event.withCredentials (Listing.credentials c t))))
      ∧ Job.on (run (c.withToken u) skipPublish) s
        = (result, after.withLog
            (s.log ++ events.map (Event.withCredentials (Listing.credentials c u)))))
      ∧ (Listing.addressCredentials c = none →
          Listing.credentials c none = none ∧ Listing.credentials c (some []) = none
          ∧ ∀ token, token ≠ [] → Listing.credentials c (some token) = some ("Bearer " ++ token))
      ∧ ∀ basic, Listing.addressCredentials c = some basic →
          ∀ token, Listing.credentials c token = some basic := by
  refine ⟨parallel_run ht hu skipPublish s s.log s.log, fun hnone => ?_,
    fun basic hbasic token => ?_⟩
  · unfold Listing.credentials
    rw [hnone]
    refine ⟨rfl, rfl, fun token htoken => ?_⟩
    obtain ⟨x, token, rfl⟩ := List.exists_cons_of_ne_nil htoken
    rfl
  · unfold Listing.credentials
    rw [hbasic]
    rfl

theorem isSendable_letter : Listing.IsSendable (some "t") := by
  intro x hx
  cases List.mem_singleton.1 hx
  decide

theorem run_of_smallSite :
    Listing.IsSendable none ∧ Listing.IsSendable (some "t")
      ∧ (Job.on (run (smallConfig.withToken none) false) smallSite).1
        = (Job.on (run (smallConfig.withToken (some "t")) false) smallSite).1
      ∧ (Job.on (run (smallConfig.withToken none) false) smallSite).2.tree
        = (Job.on (run (smallConfig.withToken (some "t")) false) smallSite).2.tree
      ∧ Listing.credentials smallConfig none = none
      ∧ Listing.credentials smallConfig (some "t") = some "Bearer t".toList := by
  have hnone : Listing.IsSendable none := nofun
  have haddress : Listing.addressCredentials smallConfig = none := by decide
  obtain ⟨⟨result, after, events, h, h'⟩, hbearer, -⟩ :=
    run_of_tokens (c := smallConfig) hnone isSendable_letter false smallSite
  obtain ⟨hcnone, -, hcsome⟩ := hbearer haddress
  refine ⟨hnone, isSendable_letter, ?_, ?_, hcnone, hcsome "t" (by decide)⟩
  · rw [h, h']
  · rw [h, h']
    rfl

/-! ## §4. An address with a user. -/

/-- **Where the address names a user the token does nothing at all.** -/
theorem on_run_of_addressCredentials {basic : Text}
    (hbasic : Listing.addressCredentials c = some basic) (ht : Listing.IsSendable t)
    (hu : Listing.IsSendable u) (skipPublish : Bool) (s : Site) :
    Job.on (run (c.withToken t) skipPublish) s = Job.on (run (c.withToken u) skipPublish) s := by
  have hsame : Listing.credentials c t = Listing.credentials c u := by
    unfold Listing.credentials
    rw [hbasic]
    rfl
  have hparallel := parallel_run (c := c) ht hu skipPublish
  rw [hsame] at hparallel
  obtain ⟨result, after, events, h, h'⟩ := hparallel s s.log s.log
  exact h.trans h'.symm

/-- A host at an address with a user. -/
def userConfig : Config := { smallConfig with apiUrl := "https://u:p@h" }

/-- The small site, where the host refuses to answer. -/
def refusingSite : Site := { smallSite with replies := [.response 404 none []] }

/-- What a run sends as credentials where the address names a user. -/
def sentTo (token : Option Text) : List (Option Text) :=
  ((Job.on (run (userConfig.withToken token) false) refusingSite).2.log.filterMap
    Event.request?).map Request.authorization

/-- **The user of an address comes before the token**: its credentials are sent instead of those
of the token, and where there is no token. -/
theorem user_before_token :
    sentTo none = [some "Basic dTpw".toList] ∧ sentTo none ≠ [none]
      ∧ sentTo (some "t") = [some "Basic dTpw".toList]
      ∧ sentTo (some "t") ≠ [some "Bearer t".toList] := by
  have hnone : sentTo none = [some "Basic dTpw".toList] := by decide +kernel
  have hsome : sentTo (some "t") = [some "Basic dTpw".toList] := by
    have hbasic : Listing.addressCredentials userConfig = some "Basic dTpw".toList := by decide
    have hempty : Listing.IsSendable none := nofun
    rw [← hnone]
    unfold sentTo
    rw [on_run_of_addressCredentials hbasic isSendable_letter hempty]
  refine ⟨hnone, ?_, hsome, ?_⟩
  · rw [hnone]
    decide
  · rw [hsome]
    decide

end Update
end Repin
