/-
  Repin.Site
  ──────────
  **WHERE A RUN TAKES PLACE.**

  A `Site` is all that a run can see and change: the files, the replies and the
  exits that are to come, and the log of what has been printed, started and
  requested so far.  A `Job` is a part of a run.  A job that stops with a fault
  leaves the site as it is at that point; nothing is undone.

  A run is alone with its site: no command that it starts changes a file.
-/
import Repin.Fault
import Repin.Http
import Repin.Text.Class
import Repin.Text.Lines

namespace Repin

/-- Something that a run does and that others can see. -/
inductive Event where
  /-- Text for standard output. -/
  | printed (s : Text)
  /-- Text for standard error. -/
  | warned (s : Text)
  | called (c : Call)
  | requested (r : Request)
  deriving DecidableEq, Repr

/-- What a run can see and change. -/
structure Site where
  /-- The working directory. -/
  here : Location
  tree : Tree
  /-- What comes back for the next requests, in order. -/
  replies : List Reply
  /-- How the next commands end, in order. -/
  exits : List Exit
  /-- What has been done so far, in order. -/
  log : List Event
  deriving DecidableEq, Repr

/-- A part of a run. -/
abbrev Job := ExceptT Fault (StateM Site)

namespace Job

/-! ## §1. Printing. -/

/-- Notes what is done. -/
def note (e : Event) : Job Unit := modify (fun s => { s with log := s.log ++ [e] })

/-- Prints a line. -/
def say (s : Text) : Job Unit := note (.printed (s ++ ['\n']))

/-- Prints a line between two rules. -/
def announce (title : Text) : Job Unit :=
  let rule := List.replicate 60 '─'
  say ('\n' :: rule ++ '\n' :: title ++ '\n' :: rule)

/-- Prints an error. -/
def warn (s : Text) : Job Unit := note (.warned ("ERROR: " ++ s ++ ['\n']))

/-- Goes on with a value, or stops with a fault. -/
def ofExcept {ε α : Type} (fault : ε → Fault) : Except ε α → Job α
  | .ok a => pure a
  | .error e => throw (fault e)

/-! ## §2. Files. -/

/-- The fault of an operation on the file at a path. -/
def fileFault (p : Path) : FileError → Fault
  | .unusable => .refused .zeroInPath
  | e => .system (.ofFile p e)

/-- The bytes of a file. -/
def readBytes (p : Path) : Job Bytes := do
  let s ← get
  ofExcept (fileFault p) (s.tree.read s.here p)

/-- The text of a file, with line feeds for all line ends. -/
def readText (p : Path) : Job Text := do
  match Text.decode? (← readBytes p) with
  | some t => return Text.unified t
  | none => throw .notUtf8

/-- Writes the bytes of a file. -/
def writeBytes (p : Path) (content : Bytes) : Job Unit := do
  let s ← get
  let tree ← ofExcept (fileFault p) (s.tree.write s.here p content)
  set { s with tree }

/-- Writes the text of a file. -/
def writeText (p : Path) (t : Text) : Job Unit := writeBytes p (Text.encode t)

/-- Makes a directory, and those that lead to it, where they are not there. -/
def ensureDirectory (p : Path) : Job Unit := do
  let s ← get
  -- What has been made stays, even if a directory further in cannot be made.
  let (tree, failure) := s.tree.ensured s.here p
  set { s with tree }
  match failure with
  | none => return ()
  | some (q, e) => throw (fileFault q e)

/-- Copies a file. -/
def copyFile (source target : Path) : Job Unit := do
  let s ← get
  if s.tree.isSame s.here source target then throw (.sameFile source target)
  writeBytes target (← readBytes source)

/-! ## §3. Commands. -/

/-- Starts a command; without a next exit it ends with status zero and no output.

The arguments are not looked at.  A command that no system can start, one without a name or with
U+0000 in an argument, takes the next exit like any other: that it is turned down before it is
started, and with which fault, is left out. -/
def start (c : Call) : Job Exit := do
  note (.called c)
  let s ← get
  match s.exits with
  | [] => return .finished 0 []
  | e :: rest =>
    set { s with exits := rest }
    return e

/-- Runs a command whose output goes to the terminal, and gives its status. -/
def execute (args : List Text) (directory : Option Path) (timeout : Option Double) : Job Int := do
  let c : Call := { args, directory, timeout, checked := false, captured := false }
  match ← start c with
  | .finished status _ => return status
  | .timedOut => throw (.commandTimedOut c)
  | .notStarted e => throw (.system e)

/-- Runs `git` and gives its output without blanks at the ends. -/
def git (args : List Text) (directory : Option Path) (checked : Bool) : Job Text := do
  let c : Call :=
    { args := "git".toList :: args, directory, timeout := none, checked, captured := true }
  match ← start c with
  | .finished status output =>
    if checked && status ≠ 0 then throw (.commandFailed c status)
    else return Text.trimmed output
  | .timedOut => throw (.commandTimedOut c)
  | .notStarted e => throw (.system e)

/-! ## §4. Requests. -/

/-- Sends a request; without a next reply there is none. -/
def request (r : Request) : Job Reply := do
  note (.requested r)
  let s ← get
  match s.replies with
  | [] => return .failed "no response"
  | reply :: rest =>
    set { s with replies := rest }
    return reply

end Job
end Repin
