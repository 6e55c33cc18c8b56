/-
  Repin.Proofs.Manifest.Formatting
  ────────────────────────────────
  **A BUMP KEEPS THE FORMATTING OF A MANIFEST.**

  The version that is found has a place: the one token that spells it, however the path
  to it is spelled and however it is quoted.  A bump writes the new version there,

      before ++ old.spelling ++ behind   becomes   before ++ '"' :: new ++ ['"'] ++ behind ,

  and what stands before and behind is kept character for character (`exists_of_bumped_text`).
  It is also cut into the same tokens as before, so comments, blanks, keys, headers and
  other values are still what they were.  `bumpVersion_formatting` says this of the file.
-/
import Repin.Proofs.Manifest.Meaning

namespace Repin

/-! ## §1. What a token spells. -/

namespace Toml

/-- The scalar that a token spells by itself. -/
def Token.scalar? : Token → Option Scalar
  | .string quote body => (stringValue? quote body).map .string
  | .word w => wordValue? w
  | _ => none

/-- What is read at a place, unless it is a date or a time, is spelled by the one token that
stands there. -/
theorem exists_token_of_readIn {ts : List Token} {p : Nat} {x : Scalar}
    (h : ReadIn ts.zipIdx [] p x) (hm : ∀ m, x ≠ .moment m) :
    ∃ t, ts[p]? = some t ∧ t.scalar? = some x := by
  obtain ⟨t, u, hl, -, hs⟩ := h
  refine ⟨t, ?_, ?_⟩
  · have hmem : (t, p) ∈ ts.zipIdx := hl.suffix.subset List.mem_cons_self
    exact List.mem_zipIdx_iff_getElem?.1 hmem
  · cases t with
    | string quote body =>
      obtain ⟨s, hv, rfl⟩ := hs
      show (stringValue? quote body).map Scalar.string = _
      rw [hv]
      rfl
    | word w =>
      have hword := hs
      obtain ⟨r, hs⟩ := hs
      rcases wordAt?_cases hs with ⟨y, -, he, hy, -⟩ | ⟨y, v, q, q', hdate, -⟩
      · cases he
        exact hy
      · -- Only a date takes in the word behind it.
        obtain ⟨m, rfl⟩ := moment_of_spells hdate hword
        exact absurd rfl (hm m)
    | blank => cases hs
    | lineEnd => cases hs
    | comment => cases hs
    | mark => cases hs

/-- The text around a token. -/
theorem spelled_split (as : List Token) (t : Token) (bs : List Token) :
    spelled (as ++ t :: bs) = spelled as ++ t.spelling ++ spelled bs := by
  rw [spelled_append, spelled_cons, List.append_assoc]

end Toml

namespace Manifest

/-! ## §2. The text of a bumped manifest. -/

/-- The token `old`, which spells the scalar `x`, is the version found in a document, in the
table `name`. -/
structure VersionAt (d : Toml.Document) (name : Text) (before : List Toml.Token) (old : Toml.Token)
    (behind : List Toml.Token) (x : Toml.Scalar) : Prop where
  tokens : d.tokens = before ++ old :: behind
  found : found? d.root = some name
  /-- The version has the place of the token in the document. -/
  place : d.at? (versionPath name) = some (.scalar before.length x)
  scalar : old.scalar? = some x

/-- **A bump replaces the token that spells the version**, and keeps all other text. -/
theorem exists_of_bumped_text {bump : Bump} {s t : Text} {change : VersionChange}
    (h : bumped bump s = .ok (change, t)) :
    ∃ d d' name before old behind x, Toml.Document.read? s = some d
      ∧ VersionAt d name before old behind x ∧ x.text = change.old
      ∧ s = Toml.spelled before ++ old.spelling ++ Toml.spelled behind
      ∧ t = Toml.spelled before ++ ('"' :: change.new ++ ['"']) ++ Toml.spelled behind
      ∧ Toml.Document.read? t = some d'
      ∧ d'.tokens = before ++ .string .basic change.new :: behind := by
  obtain ⟨d, before, old, behind, root, hd, hts, -, ht, hread, halike, hdecl⟩ := exists_of_bumped h
  obtain ⟨d₁, v, hd₁, hv, hn, hold, -⟩ := bumped_eq_ok h
  rw [hd] at hd₁
  cases hd₁
  obtain ⟨x, rfl⟩ := exists_scalar_of_alike halike hv hdecl
  have hm : ∀ m, x ≠ .moment m := by
    obtain ⟨w, hl, -⟩ := Bump.exists_of_nextText hn
    obtain ⟨p, y, he, hm⟩ := Toml.scalar_of_lenient hl
    cases he
    exact hm
  -- The token is the one at the place of what is declared.
  obtain ⟨t', ht', hx⟩ := Toml.exists_token_of_readIn (readIn_declared? hd hv) hm
  obtain rfl : old = t' := by
    rw [hts, List.getElem?_append_right (Nat.le_refl _), Nat.sub_self] at ht'
    exact Option.some.inj ht'
  obtain ⟨name, hfound, hplace⟩ := exists_found_of_declared? hv
  refine ⟨d, ⟨_, root⟩, name, before, old, behind, x, hd, ⟨hts, hfound, hplace, hx⟩, hold.symm, ?_,
    ?_, hread, rfl⟩
  · rw [← Toml.spelled_split, ← hts]
    exact (Toml.Document.text_of_read? hd).symm
  · rw [ht, Toml.spelled_split]
    rfl

/-! ## §3. The file. -/

variable {c : Config} {s : Site} {bump : Bump} {change : VersionChange}

/-- **A bump keeps the formatting of the manifest.**  One token spells the version that was
found; the new version stands in its place, in quotes, and everything before and behind it is
kept, as text and as tokens. -/
theorem bumpVersion_formatting (h : (Job.on (bumpVersion c bump) s).1 = .ok change) :
    ∃ t u d d' name before old behind x, s.textAt c.manifestPath = .ok t
      ∧ (Job.on (bumpVersion c bump) s).2.textAt c.manifestPath = .ok u
      ∧ Toml.Document.read? t = some d ∧ VersionAt d name before old behind x
      ∧ x.text = change.old
      ∧ t = Toml.spelled before ++ old.spelling ++ Toml.spelled behind
      ∧ u = Toml.spelled before ++ ('"' :: change.new ++ ['"']) ++ Toml.spelled behind
      ∧ Toml.Document.read? u = some d'
      ∧ d'.tokens = before ++ .string .basic change.new :: behind := by
  obtain ⟨t, u, ht, hb⟩ := exists_of_bumpVersion h
  have hu := textAt_on_bumpVersion ht hb
  obtain ⟨d, d', name, before, old, behind, x, hd, hat, hx, hs, hs', hd', htoks⟩ :=
    exists_of_bumped_text hb
  exact ⟨t, u, d, d', name, before, old, behind, x, ht, hu, hd, hat, hx, hs, hs', hd', htoks⟩

/-! ## §4. A manifest with a block string. -/

/-- The version is in a dotted key and in a block string, with a comment behind it. -/
def blockManifest : Text :=
  "# old\npackage . version = '''\n1.5''' # as of 1.5\n[deps]\nversion = \"1.5\"\n"

def blockSite : Site := .withManifest blockManifest

theorem formatting_of_blockSite :
    (Job.on (bumpVersion {} .patch) blockSite).1 = .ok ⟨"1.5", "1.5.1"⟩
      ∧ ∃ t u before old behind, blockSite.textAt (Config.manifestPath {}) = .ok t
        ∧ (Job.on (bumpVersion {} .patch) blockSite).2.textAt (Config.manifestPath {}) = .ok u
        ∧ t = Toml.spelled before ++ Toml.Token.spelling old ++ Toml.spelled behind
        ∧ u = Toml.spelled before ++ ('"' :: "1.5.1" ++ ['"']) ++ Toml.spelled behind := by
  have h : (Job.on (bumpVersion {} .patch) blockSite).1 = .ok ⟨"1.5", "1.5.1"⟩ :=
    eq_ok_of_toOption (by decide +kernel)
  obtain ⟨t, u, d, d', name, before, old, behind, x, ht, hu, -, -, -, hs, hs', -⟩ :=
    bumpVersion_formatting h
  exact ⟨h, t, u, before, old, behind, ht, hu, hs, hs'⟩

end Manifest
end Repin
