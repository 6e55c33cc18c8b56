/-
  Repin.Proofs.Job
  ────────────────
  **HOW PARTS OF A RUN ACT ON A SITE.**

  `Job.on x s` is how the job `x` ends on the site `s`, and the site after it.
  The lemmas say this for each operation of `Repin.Site`, so that later proofs
  never open the monad:

    • `on_bind` — a job behind another one starts on the site that the first
      one leaves, unless that one stopped with a fault,
    • `on_say`, `on_request`, `on_start`, … — one equation per operation.

  Three classes of jobs are closed under sequencing:

      StartsNothing x   — no command is started, and neither the exits that are
                          to come nor the log so far play a part in what `x` does
      KeepsFiles x      — the files are the same before and after
      DependsOnFiles x  — what `x` does to the files, and its result, depend on
                          the files only

  `Site.fresh`, `Site.withManifest`, `Site.replying` and `Site.exiting` build the sites
  on which the results are tried.
-/
import Repin.Config.Basic
import Repin.Proofs.Files.Tree
import Repin.Site

namespace Repin

theorem eq_ok_of_toOption {α ε : Type} {x : Except ε α} {a : α} (h : x.toOption = some a) :
    x = .ok a := by
  cases x with
  | error e => cases h
  | ok b => cases h; rfl

/-- The error of a result that is one. -/
def errorOf? {α ε : Type} : Except ε α → Option ε
  | .error e => some e
  | .ok _ => none

theorem eq_error_of_errorOf? {α ε : Type} {x : Except ε α} {e : ε} (h : errorOf? x = some e) :
    x = .error e := by
  cases x with
  | error f => cases h; rfl
  | ok a => cases h

/-- A sequence that gives a result does so in both of its parts. -/
theorem exists_of_bind_eq_ok {α β ε : Type} {x : Except ε α} {f : α → Except ε β} {b : β}
    (h : (x >>= f) = .ok b) : ∃ a, x = .ok a ∧ f a = .ok b := by
  cases x with
  | error e => cases h
  | ok a => exact ⟨a, rfl, h⟩

/-- The command that an event starts, if it starts one. -/
def Event.call? : Event → Option Call
  | .called c => some c
  | _ => none

namespace Site

/-- The commands started so far, in order. -/
def calls (s : Site) : List Call := s.log.filterMap Event.call?

/-- The site without the exits that are to come and without the log so far. -/
def bare (s : Site) : Site := { s with exits := [], log := [] }

/-- The site `t`, reached from `s.bare`, as it is when it is reached from `s`. -/
def reachedFrom (t s : Site) : Site := { t with exits := s.exits, log := s.log ++ t.log }

theorem tree_eq_of_bare_eq {s t : Site} (h : t.bare = s.bare) : t.tree = s.tree := by
  show t.bare.tree = s.bare.tree
  rw [h]

theorem here_eq_of_bare_eq {s t : Site} (h : t.bare = s.bare) : t.here = s.here := by
  show t.bare.here = s.bare.here
  rw [h]

@[simp] theorem bare_reachedFrom (t s : Site) : (t.reachedFrom s).bare = t.bare := rfl

theorem reachedFrom_reachedFrom (u t s : Site) :
    (u.reachedFrom t).reachedFrom s = u.reachedFrom (t.reachedFrom s) := by
  simp [reachedFrom]

@[simp] theorem reachedFrom_bare_self (s : Site) : s.bare.reachedFrom s = s := by
  simp [reachedFrom, bare]

end Site

namespace Job

variable {α β ε : Type}

/-! ## §1. Running a job on a site. -/

/-- How a job ends on a site, and the site after it. -/
def on (x : Job α) (s : Site) : Except Fault α × Site := StateT.run (ExceptT.run x) s

@[simp] theorem on_pure (a : α) (s : Site) : on (pure a) s = (.ok a, s) := rfl

@[simp] theorem on_throw (f : Fault) (s : Site) : on (throw f : Job α) s = (.error f, s) := rfl

@[simp] theorem on_get (s : Site) : on (get : Job Site) s = (.ok s, s) := rfl

@[simp] theorem on_set (t s : Site) : on (set t : Job Unit) s = (.ok (), t) := rfl

theorem on_bind (x : Job α) (f : α → Job β) (s : Site) :
    on (x >>= f) s = match on x s with
      | (.ok a, t) => on (f a) t
      | (.error e, t) => (.error e, t) := by
  unfold on
  simp only [ExceptT.run_bind, StateT.run_bind]
  show (match StateT.run (ExceptT.run x) s with | (r, t) => _) = _
  rcases StateT.run (ExceptT.run x) s with ⟨r | r, t⟩ <;> rfl

theorem on_bind_ok {x : Job α} {s t : Site} {a : α} (h : on x s = (.ok a, t))
    (f : α → Job β) : on (x >>= f) s = on (f a) t := by
  rw [on_bind, h]

theorem on_bind_error {x : Job α} {s t : Site} {e : Fault} (h : on x s = (.error e, t))
    (f : α → Job β) : on (x >>= f) s = (.error e, t) := by
  rw [on_bind, h]

/-- How a sequence ends, by how its parts end. -/
theorem on_bind_fst {x : Job α} {f : α → Job β} {s : Site} {r : Except Fault α}
    {g : α → Except Fault β} (hx : (on x s).1 = r)
    (hf : ∀ a t, on x s = (.ok a, t) → (on (f a) t).1 = g a) : (on (x >>= f) s).1 = r >>= g := by
  subst hx
  rw [on_bind]
  rcases ht : on x s with ⟨e | a, t⟩
  · rfl
  · exact hf a t ht

/-! ## §2. The operations. -/

@[simp] theorem on_note (e : Event) (s : Site) :
    on (note e) s = (.ok (), { s with log := s.log ++ [e] }) := rfl

@[simp] theorem on_say (m : Text) (s : Site) :
    on (say m) s = (.ok (), { s with log := s.log ++ [.printed (m ++ ['\n'])] }) := rfl

@[simp] theorem on_ofExcept_ok (f : ε → Fault) (a : α) (s : Site) :
    on (ofExcept f (.ok a)) s = (.ok a, s) := rfl

@[simp] theorem on_ofExcept_error (f : ε → Fault) (e : ε) (s : Site) :
    on (ofExcept f (.error e) : Job α) s = (.error (f e), s) := rfl

theorem on_ofExcept_fst (f : ε → Fault) (x : Except ε α) (s : Site) :
    (on (ofExcept f x) s).1 = x.mapError f := by
  cases x <;> rfl

theorem on_ofExcept_id_fst (x : Except Fault α) (s : Site) : (on (ofExcept id x) s).1 = x := by
  cases x <;> rfl

theorem eq_of_on_ofExcept {f : ε → Fault} {x : Except ε α} {s t : Site} {r : Except Fault α}
    (h : on (ofExcept f x) s = (r, t)) : s = t := by
  cases x <;> exact congrArg Prod.snd h

/-- Printing one line after another leaves all but the log alone. -/
theorem on_forM_say (f : α → Text) (as : List α) (s : Site) :
    ∃ log, on (as.forM (fun a => say (f a))) s = (.ok (), { s with log }) := by
  induction as generalizing s with
  | nil => exact ⟨s.log, rfl⟩
  | cons a as ih =>
    obtain ⟨log, h⟩ := ih { s with log := s.log ++ [.printed (f a ++ ['\n'])] }
    refine ⟨log, ?_⟩
    show on (say (f a) >>= fun _ => as.forM fun a => say (f a)) s = _
    rw [on_bind_ok (on_say _ s), h]

/-- How the next command ends: as is listed, or well where nothing is. -/
def nextExit : List Exit → Exit
  | [] => .finished 0 []
  | e :: _ => e

@[simp] theorem on_start (c : Call) (s : Site) :
    on (start c) s = (.ok (nextExit s.exits),
      { s with exits := s.exits.tail, log := s.log ++ [.called c] }) := by
  obtain ⟨here, tree, replies, exits, log⟩ := s
  cases exits <;> rfl

theorem on_tryCatch (x : Job α) (h : Fault → Job α) (s : Site) :
    on (tryCatch x h) s = match on x s with
      | (.ok a, t) => (.ok a, t)
      | (.error f, t) => on (h f) t := by
  unfold on
  rw [ExceptT.run_tryCatch, StateT.run_bind]
  show (match StateT.run (ExceptT.run x) s with | (r, t) => _) = _
  rcases StateT.run (ExceptT.run x) s with ⟨f | a, t⟩ <;> rfl

/-- A job of which the faults are told in other words. -/
theorem on_tryCatch_throw (x : Job α) (g : Fault → Fault) (s : Site) :
    (on (tryCatch x (fun f => throw (g f))) s).1 = (on x s).1.mapError g := by
  rw [on_tryCatch]
  rcases on x s with ⟨f | a, t⟩ <;> rfl

/-- The call that runs `git`. -/
def gitCall (args : List Text) (directory : Option Path) (checked : Bool) : Call :=
  { args := "git".toList :: args, directory, timeout := none, checked, captured := true }

/-- What is read of a command that ends in the given way: its output without the blanks at its
ends, unless the command failed. -/
def outputOf (c : Call) : Exit → Except Fault Text
  | .finished status output =>
    if c.checked && status ≠ 0 then .error (.commandFailed c status)
    else .ok (Text.trimmed output)
  | .timedOut => .error (.commandTimedOut c)
  | .notStarted e => .error (.system e)

theorem on_git (args : List Text) (directory : Option Path) (checked : Bool) (s : Site) :
    on (git args directory checked) s
      = (outputOf (gitCall args directory checked) (nextExit s.exits),
        { s with exits := s.exits.tail,
                 log := s.log ++ [.called (gitCall args directory checked)] }) := by
  unfold git
  rw [on_bind_ok (on_start _ s)]
  cases nextExit s.exits with
  | finished status output =>
    show on (if checked && status ≠ 0 then _ else _) _
      = ((if checked && status ≠ 0 then _ else _), _)
    split <;> rfl
  | timedOut => rfl
  | notStarted e => rfl

/-- What comes back for the next request. -/
def nextReply : List Reply → Reply
  | [] => .failed "no response"
  | r :: _ => r

@[simp] theorem on_request (r : Request) (s : Site) :
    on (request r) s = (.ok (nextReply s.replies),
      { s with replies := s.replies.tail, log := s.log ++ [.requested r] }) := by
  obtain ⟨here, tree, replies, exits, log⟩ := s
  cases replies <;> rfl

end Job

/-- The text of the file at a path, or why it cannot be read. -/
def Site.textAt (s : Site) (p : Path) : Except Fault Text :=
  match s.tree.read s.here p with
  | .error e => .error (Job.fileFault p e)
  | .ok content =>
    match Text.decode? content with
    | some t => .ok (Text.unified t)
    | none => .error .notUtf8

/-- The sites have the same files, and a run starts at the same place in them. -/
structure Site.SameFiles (s t : Site) : Prop where
  here : t.here = s.here
  tree : t.tree = s.tree

theorem Site.SameFiles.symm {s t : Site} (h : s.SameFiles t) : t.SameFiles s :=
  ⟨h.here.symm, h.tree.symm⟩

/-- Reading a text looks at the files and at the place of the run only. -/
theorem Site.SameFiles.textAt_eq {s t : Site} (h : s.SameFiles t) (p : Path) :
    t.textAt p = s.textAt p := by
  unfold Site.textAt
  rw [h.tree, h.here]

namespace Job

@[simp] theorem on_readText (p : Path) (s : Site) : on (readText p) s = (s.textAt p, s) := by
  unfold readText readBytes Site.textAt
  simp only [on_bind, on_get]
  cases hr : s.tree.read s.here p with
  | error e => rfl
  | ok content =>
    simp only [on_ofExcept_ok]
    cases Text.decode? content <;> rfl

theorem on_writeText_ok {s : Site} {p : Path} {t : Text} {tree : Tree}
    (h : s.tree.write s.here p (Text.encode t) = .ok tree) :
    on (writeText p t) s = (.ok (), { s with tree }) := by
  unfold writeText writeBytes
  simp only [on_bind, on_get, h, on_ofExcept_ok, on_set]

theorem on_writeText_error {s : Site} {p : Path} {t : Text} {e : FileError}
    (h : s.tree.write s.here p (Text.encode t) = .error e) :
    on (writeText p t) s = (.error (fileFault p e), s) := by
  unfold writeText writeBytes
  simp only [on_bind, on_get, h, on_ofExcept_error]

theorem on_ensureDirectory {s : Site} {p : Path} {t : Tree} {r : Option (Path × FileError)}
    (h : s.tree.ensured s.here p = (t, r)) :
    on (ensureDirectory p) s
      = (match r with
          | none => .ok ()
          | some (q, e) => .error (fileFault q e), { s with tree := t }) := by
  unfold ensureDirectory
  simp only [on_bind, on_get, h, on_set]
  cases r with
  | none => rfl
  | some x => rfl

theorem on_copyFile (source target : Path) (s : Site) :
    on (copyFile source target) s
      = if s.tree.isSame s.here source target then (.error (.sameFile source target), s)
        else match s.tree.read s.here source with
          | .error e => (.error (fileFault source e), s)
          | .ok b => match s.tree.write s.here target b with
            | .error e => (.error (fileFault target e), s)
            | .ok t => (.ok (), { s with tree := t }) := by
  unfold copyFile readBytes writeBytes
  simp only [on_bind, on_get]
  split
  · rfl
  · simp only [on_bind, on_get]
    cases s.tree.read s.here source with
    | error e => rfl
    | ok b =>
      simp only [on_ofExcept_ok]
      cases s.tree.write s.here target b with
      | error e => rfl
      | ok t => rfl

/-! ## §3. Jobs that start no command. -/

/-- The job starts no command; what the next commands would give and what has
been done before play no part in it. -/
structure StartsNothing (x : Job α) : Prop where
  on_eq : ∀ s, on x s = ((on x s.bare).1, (on x s.bare).2.reachedFrom s)
  calls_eq : ∀ s, (on x s).2.calls = s.calls
  here_eq : ∀ s, (on x s).2.here = s.here

namespace StartsNothing

theorem exits_eq {x : Job α} (h : StartsNothing x) (s : Site) : (on x s).2.exits = s.exits := by
  rw [h.on_eq s]
  rfl

/-- Sites that differ in exits and log only make no difference to how it ends. -/
theorem result_eq {x : Job α} (h : StartsNothing x) {s t : Site} (hb : t.bare = s.bare) :
    (on x t).1 = (on x s).1 := by
  rw [h.on_eq t, h.on_eq s, hb]

theorem bare_eq {x : Job α} (h : StartsNothing x) {s t : Site} (hb : t.bare = s.bare) :
    (on x t).2.bare = (on x s).2.bare := by
  rw [h.on_eq t, h.on_eq s, hb]
  rfl

protected theorem pure (a : α) : StartsNothing (pure a) where
  on_eq s := by simp
  calls_eq s := rfl
  here_eq s := rfl

protected theorem throw (f : Fault) : StartsNothing (throw f : Job α) where
  on_eq s := by simp
  calls_eq s := rfl
  here_eq s := rfl

/-- Sequencing keeps the class: what the first job leaves behind from the bare
site is, put back on the whole site, where the second one starts. -/
protected theorem bind {x : Job α} {f : α → Job β} (hx : StartsNothing x)
    (hf : ∀ a, StartsNothing (f a)) : StartsNothing (x >>= f) where
  on_eq s := by
    rcases hb : on x s.bare with ⟨r, t⟩
    have hs : on x s = (r, t.reachedFrom s) := by rw [hx.on_eq s, hb]
    have ht : t = t.reachedFrom s.bare := by
      have h := hx.on_eq s.bare
      rw [hb, show s.bare.bare = s.bare from rfl, hb] at h
      exact congrArg Prod.snd h
    cases r with
    | error e => rw [on_bind_error hs, on_bind_error hb]
    | ok a =>
      rw [on_bind_ok hs, on_bind_ok hb, (hf a).on_eq (t.reachedFrom s), Site.bare_reachedFrom]
      have h := (hf a).on_eq t
      rw [h, Site.reachedFrom_reachedFrom]
  calls_eq s := by
    have hc := hx.calls_eq s
    rcases hs : on x s with ⟨r, t⟩
    rw [hs] at hc
    cases r with
    | error e => rw [on_bind_error hs]; exact hc
    | ok a => rw [on_bind_ok hs, (hf a).calls_eq t]; exact hc
  here_eq s := by
    have hh := hx.here_eq s
    rcases hs : on x s with ⟨r, t⟩
    rw [hs] at hh
    cases r with
    | error e => rw [on_bind_error hs]; exact hh
    | ok a => rw [on_bind_ok hs, (hf a).here_eq t]; exact hh

protected theorem ofExcept (f : ε → Fault) (r : Except ε α) : StartsNothing (ofExcept f r) := by
  cases r with
  | error e => exact .throw (f e)
  | ok a => exact .pure a

protected theorem say (m : Text) : StartsNothing (say m) where
  on_eq s := by simp [Site.bare, Site.reachedFrom]
  calls_eq s := by simp [Site.calls, Event.call?]
  here_eq s := rfl

protected theorem announce (m : Text) : StartsNothing (announce m) := .say _

protected theorem request (r : Request) : StartsNothing (request r) where
  on_eq s := by simp [Site.bare, Site.reachedFrom]
  calls_eq s := by simp [Site.calls, Event.call?]
  here_eq s := by simp

protected theorem readText (p : Path) : StartsNothing (readText p) where
  on_eq s := by simp [Site.textAt, Site.bare, Site.reachedFrom]
  calls_eq s := by simp
  here_eq s := by simp

protected theorem writeText (p : Path) (t : Text) : StartsNothing (writeText p t) where
  on_eq s := by
    cases hw : s.tree.write s.here p (Text.encode t) with
    | error e =>
      have hb : s.bare.tree.write s.bare.here p (Text.encode t) = .error e := hw
      rw [on_writeText_error hw, on_writeText_error hb, Site.reachedFrom_bare_self]
    | ok tree =>
      have hb : s.bare.tree.write s.bare.here p (Text.encode t) = .ok tree := hw
      rw [on_writeText_ok hw, on_writeText_ok hb]
      simp [Site.bare, Site.reachedFrom]
  calls_eq s := by
    cases hw : s.tree.write s.here p (Text.encode t) with
    | error e => rw [on_writeText_error hw]
    | ok tree => rw [on_writeText_ok hw]; rfl
  here_eq s := by
    cases hw : s.tree.write s.here p (Text.encode t) with
    | error e => rw [on_writeText_error hw]
    | ok tree => rw [on_writeText_ok hw]

protected theorem forM {f : α → Job PUnit} (hf : ∀ a, StartsNothing (f a)) (as : List α) :
    StartsNothing (as.forM f) := by
  induction as with
  | nil => exact .pure _
  | cons a as ih =>
    show StartsNothing (f a >>= fun _ => as.forM f)
    exact (hf a).bind (fun _ => ih)

end StartsNothing

/-! ## §4. Jobs that keep the files. -/

/-- The job leaves the files as they are. -/
def KeepsFiles (x : Job α) : Prop := ∀ s, (on x s).2.tree = s.tree

namespace KeepsFiles

protected theorem pure (a : α) : KeepsFiles (pure a) := fun _ => rfl

protected theorem throw (f : Fault) : KeepsFiles (throw f : Job α) := fun _ => rfl

protected theorem bind {x : Job α} {f : α → Job β} (hx : KeepsFiles x)
    (hf : ∀ a, KeepsFiles (f a)) : KeepsFiles (x >>= f) := by
  intro s
  have ht := hx s
  rcases hs : on x s with ⟨r, t⟩
  rw [hs] at ht
  cases r with
  | error e => rw [on_bind_error hs]; exact ht
  | ok a => rw [on_bind_ok hs, hf a t]; exact ht

protected theorem ofExcept (f : ε → Fault) (r : Except ε α) : KeepsFiles (ofExcept f r) := by
  cases r with
  | error e => exact .throw (f e)
  | ok a => exact .pure a

protected theorem say (m : Text) : KeepsFiles (say m) := fun _ => rfl

protected theorem announce (m : Text) : KeepsFiles (announce m) := .say _

protected theorem request (r : Request) : KeepsFiles (request r) := fun s => by simp

protected theorem readText (p : Path) : KeepsFiles (readText p) := fun s => by simp

protected theorem start (c : Call) : KeepsFiles (start c) := fun s => by simp

protected theorem forM {f : α → Job PUnit} (hf : ∀ a, KeepsFiles (f a)) (as : List α) :
    KeepsFiles (as.forM f) := by
  induction as with
  | nil => exact .pure _
  | cons a as ih =>
    show KeepsFiles (f a >>= fun _ => as.forM f)
    exact (hf a).bind (fun _ => ih)

end KeepsFiles

/-! ## §5. Jobs that depend on the files only. -/

/-- The result of the job, and what it makes of the files, depend on the files only. -/
structure DependsOnFiles (x : Job α) : Prop where
  result : ∀ s t, s.SameFiles t → (on x t).1 = (on x s).1
  files : ∀ s t, s.SameFiles t → (on x s).2.SameFiles (on x t).2

namespace DependsOnFiles

protected theorem pure (a : α) : DependsOnFiles (pure a) where
  result _ _ _ := rfl
  files _ _ h := h

protected theorem bind {x : Job α} {f : α → Job β} (hx : DependsOnFiles x)
    (hf : ∀ a, DependsOnFiles (f a)) : DependsOnFiles (x >>= f) := by
  have hboth : ∀ s t, s.SameFiles t → (on (x >>= f) t).1 = (on (x >>= f) s).1
      ∧ (on (x >>= f) s).2.SameFiles (on (x >>= f) t).2 := by
    intro s t h
    have hr := hx.result s t h
    have hk := hx.files s t h
    rcases hs : on x s with ⟨r, u⟩
    rcases ht : on x t with ⟨r', v⟩
    rw [hs, ht] at hr hk
    obtain rfl : r' = r := hr
    cases r' with
    | error e =>
      rw [on_bind_error hs, on_bind_error ht]
      exact ⟨rfl, hk⟩
    | ok a =>
      rw [on_bind_ok hs, on_bind_ok ht]
      exact ⟨(hf a).result u v hk, (hf a).files u v hk⟩
  exact ⟨fun s t h => (hboth s t h).1, fun s t h => (hboth s t h).2⟩

protected theorem ofExcept (f : ε → Fault) (r : Except ε α) : DependsOnFiles (ofExcept f r) := by
  cases r with
  | error e => exact ⟨fun _ _ _ => rfl, fun _ _ h => h⟩
  | ok a => exact .pure a

protected theorem say (m : Text) : DependsOnFiles (say m) where
  result _ _ _ := rfl
  files _ _ h := ⟨h.here, h.tree⟩

protected theorem announce (m : Text) : DependsOnFiles (announce m) := .say _

protected theorem readText (p : Path) : DependsOnFiles (readText p) where
  result s t h := by
    rw [on_readText, on_readText]
    exact h.textAt_eq p
  files s t h := by
    rw [on_readText, on_readText]
    exact h

protected theorem writeText (p : Path) (m : Text) : DependsOnFiles (writeText p m) := by
  have hboth : ∀ s t, s.SameFiles t → (on (writeText p m) t).1 = (on (writeText p m) s).1
      ∧ (on (writeText p m) s).2.SameFiles (on (writeText p m) t).2 := by
    intro s t h
    have hsame : t.tree.write t.here p (Text.encode m) = s.tree.write s.here p (Text.encode m) := by
      rw [h.tree, h.here]
    cases hw : s.tree.write s.here p (Text.encode m) with
    | error e =>
      rw [on_writeText_error hw, on_writeText_error (hsame.trans hw)]
      exact ⟨rfl, h⟩
    | ok tree =>
      rw [on_writeText_ok hw, on_writeText_ok (hsame.trans hw)]
      exact ⟨rfl, h.here, rfl⟩
  exact ⟨fun s t h => (hboth s t h).1, fun s t h => (hboth s t h).2⟩

end DependsOnFiles

/-! ## §6. Faults. -/

/-- The job stops with no other faults than those of a class. -/
def FailsWith (P : Fault → Prop) (x : Job α) : Prop := ∀ s f, (on x s).1 = .error f → P f

namespace FailsWith

variable {P : Fault → Prop}

protected theorem pure (a : α) : FailsWith P (pure a) := by
  intro s f h
  cases h

protected theorem throw {f : Fault} (hf : P f) : FailsWith P (throw f : Job α) := by
  intro s g h
  cases h
  exact hf

protected theorem bind {x : Job α} {g : α → Job β} (hx : FailsWith P x)
    (hg : ∀ a, FailsWith P (g a)) : FailsWith P (x >>= g) := by
  intro s f h
  rcases hs : on x s with ⟨r, t⟩
  cases r with
  | error e =>
    rw [on_bind_error hs] at h
    cases h
    exact hx s _ (by rw [hs])
  | ok a =>
    rw [on_bind_ok hs] at h
    exact hg a t f h

protected theorem ofExcept {fault : ε → Fault} {r : Except ε α}
    (hr : ∀ e, r = .error e → P (fault e)) : FailsWith P (ofExcept fault r) := by
  cases r with
  | error e => exact .throw (hr e rfl)
  | ok a => exact .pure a

protected theorem say (m : Text) : FailsWith P (say m) := by
  intro s f h
  cases h

protected theorem announce (m : Text) : FailsWith P (announce m) := .say _

protected theorem request (r : Request) : FailsWith P (request r) := by
  intro s f h
  rw [on_request] at h
  cases h

protected theorem forM {g : α → Job PUnit} (hg : ∀ a, FailsWith P (g a)) (as : List α) :
    FailsWith P (as.forM g) := by
  induction as with
  | nil => exact .pure _
  | cons a as ih =>
    show FailsWith P (g a >>= fun _ => as.forM g)
    exact (hg a).bind (fun _ => ih)

end FailsWith
end Job

/-! ## §7. Small sites. -/

namespace Site

/-- A site with the given files, where a run is about to begin: nothing is to come. -/
def fresh (entries : List (Location × Node)) : Site where
  here := []
  tree := ⟨entries⟩
  replies := []
  exits := []
  log := []

/-- A site with a manifest of the given bytes and no other file. -/
def holding (manifest : Bytes) : Site := fresh [(["Cargo.toml".toList], .file manifest)]

/-- A site with a manifest of the given text and no other file. -/
def withManifest (manifest : Text) : Site := holding (Text.encode manifest)

/-- The site, where a document is what comes back for the next request. -/
def replying (s : Site) (body : Text) : Site :=
  { s with replies := [.response 200 none (Text.encode body)] }

/-- The site, where the next commands end in the given ways. -/
def exiting (s : Site) (exits : List Exit) : Site := { s with exits }

end Site

/-- The document that lists the given names, each spelled as in JSON. -/
def pageOf (names : List Text) : Text :=
  '[' :: [','].intercalate (names.map (fun n => "\x7b\"name\": \"" ++ n ++ "\"\x7d")) ++ "]"

/-- A dependency whose tags have the prefix `v` and no suffixes. -/
def smallConfig : Config := { sourceUrl := "u", tagPrefix := "v" }

/-- It pins a release of that dependency. -/
def smallManifest : Text :=
  "[package]\nversion = \"0.1.0\"\n[dependencies]\nx = \x7b git = \"u\", tag = \"v1.0.0\" \x7d\n"

/-- A repository with that manifest; the host lists a release behind the pinned one. -/
def smallSite : Site := (Site.withManifest smallManifest).replying (pageOf ["v1.1.0"])

end Repin
