/-
  Repin.Proofs.Package.Stages
  ───────────────────────────
  **PACKAGING UP TO THE COPY AND BEHIND IT.**

  Packaging is cut in two behind the copy of the build output:

      make build dist version = copied build dist >>= concluded dist version     (`make_eq`)

  Each part is described once, by all that it can do:

    • `Copies` — the build output is missing, the directory cannot be made, the copy is not
      possible, or the copy is there,
    • `ReadsAs` — what a descriptor of any content is read as: an object, or one of the
      reasons why no version can be stamped into it.
-/
import Repin.Proofs.Files.Directories
import Repin.Proofs.Package.Stamping

namespace Repin

namespace Package

/-! ## §1. The two parts. -/

/-- What packaging does up to the copy, whose path it gives. -/
def copied (build dist : Path) : Job Path := do
  Job.announce "Packaging plugin"
  let s ← get
  if !s.tree.isFile s.here build then throw (.buildMissing build)
  Job.ensureDirectory dist
  Job.copyFile build (dist.sub pluginFile)
  Job.say ("  " ++ build.name ++ " → " ++ (dist.sub pluginFile).text)
  return dist.sub pluginFile

/-- What packaging does behind the copy. -/
def concluded (dist : Path) (version : Option Text) (target : Path) : Job Path :=
  match version with
  | none => return target
  | some version => do
    setVersion (dist.sub descriptorFile) version
    Job.say ("  package.json version: " ++ version)
    return target

theorem make_eq (build dist : Path) (version : Option Text) :
    make build dist version = copied build dist >>= concluded dist version := by
  unfold make copied
  simp only [bind_assoc]
  congr 1
  funext _
  congr 1
  funext s
  split
  · rfl
  · simp only [pure_bind, bind_assoc]
    rfl

/-! ## §2. The copy. -/

variable {s : Site} {build dist : Path}

/-- How the copy of the build output ends, and the files behind it. -/
inductive Copies (s : Site) (build dist : Path) : Except Fault Path → Tree → Prop
  /-- There is no build output. -/
  | missing : s.tree.isFile s.here build = false →
      Copies s build dist (.error (.buildMissing build)) s.tree
  /-- The directory cannot be made. -/
  | unmade {t : Tree} {q : Path} {e : FileError} : s.tree.isFile s.here build = true →
      s.tree.ensured s.here dist = (t, some (q, e)) →
      Copies s build dist (.error (Job.fileFault q e)) t
  /-- The build output is where its copy would be. -/
  | same {t : Tree} : s.tree.isFile s.here build = true → s.tree.ensured s.here dist = (t, none) →
      t.isSame s.here build (dist.sub pluginFile) = true →
      Copies s build dist (.error (.sameFile build (dist.sub pluginFile))) t
  /-- A directory is where the copy would be. -/
  | occupied {t : Tree} : s.tree.isFile s.here build = true →
      s.tree.ensured s.here dist = (t, none) →
      t.isDirectory s.here (dist.sub pluginFile) = true →
      Copies s build dist
        (.error (Job.fileFault (dist.sub pluginFile) .isDirectory)) t
  /-- The build output is copied. -/
  | copied {t : Tree} {l : Location} {b : Bytes} : s.tree.read s.here build = .ok b →
      s.tree.ensured s.here dist = (t, none) →
      t.locate s.here (dist.sub pluginFile) = .ok l → t.get? l ≠ some .directory →
      Copies s build dist (.ok (dist.sub pluginFile)) (t.put l (.file b))

theorem isName_pluginFile : Tree.IsName pluginFile := ⟨by decide, by decide, by decide⟩

theorem isName_descriptorFile : Tree.IsName descriptorFile := ⟨by decide, by decide, by decide⟩

/-- Without a build output nothing is made. -/
theorem Copies.eq_of_missing {r : Except Fault Path} {u : Tree} (h : Copies s build dist r u)
    (hno : s.tree.isFile s.here build = false) : r = .error (.buildMissing build) ∧ u = s.tree := by
  cases h with
  | missing _ => exact ⟨rfl, rfl⟩
  | unmade hfile _ => simp [hno] at hfile
  | same hfile _ _ => simp [hno] at hfile
  | occupied hfile _ _ => simp [hno] at hfile
  | copied hread _ _ _ => simp [Tree.isFile_iff.2 ⟨_, hread⟩] at hno

/-- A directory that has been made holds the place of the copy. -/
theorem exists_locate_of_isDirectory {here : Location} {t : Tree} {name : Text}
    (hname : Tree.IsName name) (h : t.isDirectory here dist = true) :
    ∃ l, t.locate here (dist.sub name) = .ok l := by
  obtain ⟨d, hd, hn⟩ := Tree.isDirectory_iff.1 h
  exact ⟨d ++ [name], (Tree.locate_sub_eq_ok_iff hname).2 ⟨d, hd, hn, rfl⟩⟩

/-- The two files of a package are at different places. -/
theorem location_ne {here l m : Location} {t : Tree}
    (hl : t.locate here (dist.sub pluginFile) = .ok l)
    (hm : t.locate here (dist.sub descriptorFile) = .ok m) : m ≠ l := by
  obtain ⟨d, hd, -, rfl⟩ := (Tree.locate_sub_eq_ok_iff isName_pluginFile).1 hl
  obtain ⟨e, he, -, rfl⟩ := (Tree.locate_sub_eq_ok_iff isName_descriptorFile).1 hm
  rw [hd] at he
  cases he
  intro hsame
  exact absurd (List.append_cancel_left hsame) (by decide)

theorem exists_copies (s : Site) (build dist : Path) :
    ∃ r u log, Copies s build dist r u
      ∧ Job.on (Package.copied build dist) s = (r, { s with tree := u, log }) := by
  unfold Package.copied Job.announce
  rw [Job.on_bind_ok (Job.on_say _ s), Job.on_bind_ok (Job.on_get _)]
  generalize s.log ++ _ = log
  by_cases hfile : s.tree.isFile s.here build = true
  · rw [if_neg (by simp [hfile])]
    obtain ⟨b, hread⟩ := Tree.isFile_iff.1 hfile
    obtain ⟨l, hl⟩ := Tree.read_eq_ok_iff.1 hread
    rcases hensured : s.tree.ensured s.here dist with ⟨t, r⟩
    obtain ⟨hgrows, hdirectory⟩ := Tree.of_ensured hensured
    have hon := Job.on_ensureDirectory (s := { s with log }) hensured
    cases r with
    | some x => exact ⟨_, t, log, .unmade hfile hensured, Job.on_bind_error hon _⟩
    | none =>
      dsimp only
      rw [Job.on_bind_ok hon, Job.on_bind, Job.on_copyFile]
      by_cases hsame : t.isSame s.here build (dist.sub pluginFile) = true
      · rw [if_pos hsame]
        exact ⟨_, t, log, .same hfile hensured hsame, rfl⟩
      · obtain ⟨m, hm⟩ := exists_locate_of_isDirectory isName_pluginFile (hdirectory rfl)
        rw [if_neg hsame]
        simp only [(hgrows.holds hl).read, Tree.write_eq hm]
        by_cases hn : t.get? m = some .directory
        · rw [if_pos hn]
          exact ⟨_, t, log, .occupied hfile hensured (Tree.isDirectory_iff.2 ⟨m, hm, hn⟩), rfl⟩
        · rw [if_neg hn]
          exact ⟨_, t.put m (.file b), _, .copied hread hensured hm hn, rfl⟩
  · rw [if_pos (by simp [hfile])]
    exact ⟨_, s.tree, log, .missing (Bool.eq_false_iff.2 hfile), rfl⟩

/-! ## §3. The descriptor. -/

/-- What a descriptor of the given content is read as: the members of an object, or why no
version is stamped into it. -/
inductive ReadsAs (p : Path) : Except FileError Bytes → Except Fault Json.Members → Prop
  | unusable : ReadsAs p (.error .unusable) (.error (.refused .zeroInPath))
  /-- There is no file. -/
  | absent {e : FileError} : e ≠ .unusable →
      ReadsAs p (.error e) (.error (.descriptorUnreadable p (.system (.ofFile p e))))
  | notUtf8 {b : Bytes} : Text.decode? b = none → ReadsAs p (.ok b) (.error .notUtf8)
  | notJson {b : Bytes} {t : Text} {f : Json.Fault} : Text.decode? b = some t →
      Json.ofDocument (Text.unified t) = .error f →
      ReadsAs p (.ok b) (.error (.descriptorUnreadable p (.json (Text.unified t) f)))
  | notObject {b : Bytes} {t : Text} {v : Json} : Text.decode? b = some t →
      Json.ofDocument (Text.unified t) = .ok v → (∀ ms, v ≠ .object ms) →
      ReadsAs p (.ok b) (.error .notObject)
  | object {b : Bytes} {t : Text} {ms : Json.Members} : Text.decode? b = some t →
      Json.ofDocument (Text.unified t) = .ok (.object ms) → ReadsAs p (.ok b) (.ok ms)

/-- The files behind a stamping: others only if the descriptor holds an object. -/
def Stamps (here : Location) (p : Path) (version : Text) (t : Tree) :
    Except Fault Json.Members → Tree → Prop
  | .error _, u => u = t
  | .ok ms, u =>
    ∃ l b, t.Holds here p l b ∧ u = t.put l (.file (stampedBytes version ms))

variable {p : Path} {t version : Text} {f : Fault}

/-- What is said when the text of a descriptor cannot be read. -/
def unreadable (p : Path) : Fault → Fault
  | .system e => .descriptorUnreadable p (.system e)
  | f => f

theorem on_setVersion_of_textAt_error (h : s.textAt p = .error f) (version : Text) :
    Job.on (setVersion p version) s = (.error (unreadable p f), s) := by
  unfold setVersion readDescriptor
  simp only [Job.on_bind, Job.on_tryCatch, Job.on_readText, h]
  cases f with
  | _ => rfl

theorem on_setVersion_of_notJson {f : Json.Fault} (h : s.textAt p = .ok t)
    (hf : Json.ofDocument t = .error f) (version : Text) :
    Job.on (setVersion p version) s = (.error (.descriptorUnreadable p (.json t f)), s) := by
  unfold setVersion readDescriptor
  simp only [Job.on_bind, Job.on_tryCatch, Job.on_readText, h, hf]
  rfl

theorem on_setVersion_of_notObject {v : Json} (h : s.textAt p = .ok t)
    (hv : Json.ofDocument t = .ok v) (hno : ∀ ms, v ≠ .object ms) (version : Text) :
    Job.on (setVersion p version) s = (.error .notObject, s) := by
  unfold setVersion
  rw [Job.on_bind_ok (on_readDescriptor h hv)]
  cases v with
  | object ms => exact absurd rfl (hno ms)
  | _ => rfl

/-- **Stamping succeeds exactly on a descriptor that holds an object.** -/
theorem exists_readsAs (p : Path) (version : Text) (s : Site) :
    ∃ r u, ReadsAs p (s.tree.read s.here p) r ∧ Stamps s.here p version s.tree r u
      ∧ Job.on (setVersion p version) s = (r.map (fun _ => ()), { s with tree := u }) := by
  cases hread : s.tree.read s.here p with
  | error e =>
    have htext : s.textAt p = .error (Job.fileFault p e) := by simp only [Site.textAt, hread]
    have hon := on_setVersion_of_textAt_error htext version
    by_cases he : e = .unusable
    · subst he
      exact ⟨_, s.tree, .unusable, rfl, hon⟩
    · have hfault : Job.fileFault p e = .system (.ofFile p e) := by
        cases e with
        | unusable => exact absurd rfl he
        | _ => rfl
      rw [hfault] at hon
      exact ⟨_, s.tree, .absent he, rfl, hon⟩
  | ok b =>
    obtain ⟨l, hl⟩ := Tree.read_eq_ok_iff.1 hread
    cases ht : Text.decode? b with
    | none =>
      have htext : s.textAt p = .error .notUtf8 := by simp only [Site.textAt, hread, ht]
      exact ⟨_, s.tree, .notUtf8 ht, rfl, on_setVersion_of_textAt_error htext version⟩
    | some t =>
      have htext : s.textAt p = .ok (Text.unified t) := by simp only [Site.textAt, hread, ht]
      cases hv : Json.ofDocument (Text.unified t) with
      | error f => exact ⟨_, s.tree, .notJson ht hv, rfl, on_setVersion_of_notJson htext hv version⟩
      | ok v =>
        by_cases hobject : ∃ ms, v = .object ms
        · obtain ⟨ms, rfl⟩ := hobject
          exact ⟨_, _, .object ht hv, ⟨l, b, hl, rfl⟩, on_setVersion hl htext hv version⟩
        · have hno : ∀ ms, v ≠ .object ms := fun ms he => hobject ⟨ms, he⟩
          exact ⟨_, s.tree, .notObject ht hv hno, rfl, on_setVersion_of_notObject htext hv hno version⟩

/-! ## §4. Behind the copy. -/

theorem on_concluded_ok {u : Tree} (target : Path)
    (h : Job.on (setVersion (dist.sub descriptorFile) version) s
      = (.ok (), { s with tree := u })) :
    ∃ log, Job.on (concluded dist (some version) target) s
      = (.ok target, { s with tree := u, log }) := by
  unfold concluded
  rw [Job.on_bind_ok h]
  exact ⟨_, rfl⟩

theorem on_concluded_error {u : Site} (target : Path)
    (h : Job.on (setVersion (dist.sub descriptorFile) version) s = (.error f, u)) :
    Job.on (concluded dist (some version) target) s = (.error f, u) :=
  Job.on_bind_error h _

end Package
end Repin
