/-
  Repin.Files.Tree
  ────────────────
  **FILES AND DIRECTORIES.**

  A tree says for each location, the list of names from the root down, whether a
  file or a directory is there.  A path leads to a location step by step: every
  part but the last must be a directory, and a double dot goes one directory up.

  An operation that fails says why, and changes nothing; only `ensured` may have
  made some of the directories that it was asked for.

  There are no links, so two locations are never the same file, and a write puts
  the whole content in place or none of it: a write that breaks off half way, for
  want of space or of permission, is left out.
-/
import Repin.Files.Path
import Repin.Text.Encoding

namespace Repin

/-- The names on the way from the root of the tree. -/
abbrev Location := List Text

/-- What stands at a location. -/
inductive Node where
  | file (content : Bytes)
  | directory
  deriving DecidableEq, Repr

/-- Files and directories by location.  The root is a directory that is not listed. -/
structure Tree where
  entries : List (Location × Node)
  deriving DecidableEq, Repr

/-- Why an operation on files fails. -/
inductive FileError where
  | missing
  | exists
  | notDirectory
  | isDirectory
  /-- No file can have the path. -/
  | unusable
  deriving DecidableEq, Repr

namespace Tree

/-! ## §1. Nodes. -/

/-- What stands at a location. -/
def get? (l : Location) (t : Tree) : Option Node :=
  if l = [] then some .directory else (t.entries.find? (fun e => e.1 = l)).map Prod.snd

/-- Entries with a node put at a location. -/
def putIn (l : Location) (n : Node) : List (Location × Node) → List (Location × Node)
  | [] => [(l, n)]
  | e :: es => if e.1 = l then (l, n) :: es else e :: putIn l n es

/-- The tree with a node put at a location. -/
def put (l : Location) (n : Node) (t : Tree) : Tree := ⟨putIn l n t.entries⟩

/-- The tree with nothing at a location. -/
def remove (l : Location) (t : Tree) : Tree := ⟨t.entries.filter (fun e => e.1 ≠ l)⟩

theorem get?_put_self {l : Location} (h : l ≠ []) (n : Node) (t : Tree) :
    (t.put l n).get? l = some n := by
  obtain ⟨es⟩ := t
  simp only [get?, put, h, if_false]
  induction es with
  | nil => simp [putIn]
  | cons e es ih =>
    by_cases he : e.1 = l
    · simp [putIn, he]
    · simp only [putIn, he, if_false]
      simpa [List.find?_cons, he] using ih

theorem get?_put_of_ne {l m : Location} (h : m ≠ l) (n : Node) (t : Tree) :
    (t.put l n).get? m = t.get? m := by
  obtain ⟨es⟩ := t
  simp only [get?, put]
  split
  · rfl
  · induction es with
    | nil => simp [putIn, Ne.symm h]
    | cons e es ih =>
      by_cases he : e.1 = l
      · simp [putIn, he, Ne.symm h]
      · simp only [putIn, he, if_false, List.find?_cons]
        split <;> simp_all

/-! ## §2. The way along a path. -/

/-- The location to which the parts of a path lead. -/
def walk (t : Tree) (l : Location) : List Text → Except FileError Location
  | [] => .ok l
  | p :: ps =>
    match t.get? l with
    -- Above the root there is the root again.
    | some .directory => walk t (if p = ['.', '.'] then l.dropLast else l ++ [p]) ps
    | some (.file _) => .error .notDirectory
    | none => .error .missing

/-- The location of a path, seen from the directory `here`. -/
def locate (here : Location) (p : Path) (t : Tree) : Except FileError Location :=
  if p.isUsable then walk t (if p.anchor = 0 then here else []) p.parts else .error .unusable

/-! ## §3. Files. -/

/-- What stands at a path, if the way leads somewhere. -/
def node? (here : Location) (p : Path) (t : Tree) : Option Node :=
  match t.locate here p with
  | .ok l => t.get? l
  | .error _ => none

/-- Is there a file? -/
def isFile (here : Location) (p : Path) (t : Tree) : Bool :=
  match t.node? here p with
  | some (.file _) => true
  | _ => false

/-- Is there a directory? -/
def isDirectory (here : Location) (p : Path) (t : Tree) : Bool :=
  match t.node? here p with
  | some .directory => true
  | _ => false

/-- The content of a file. -/
def read (here : Location) (p : Path) (t : Tree) : Except FileError Bytes :=
  match t.locate here p with
  | .error e => .error e
  | .ok l =>
    match t.get? l with
    | some (.file content) => .ok content
    | some .directory => .error .isDirectory
    | none => .error .missing

/-- The tree with a content written to a file, which is made if it is not there. -/
def write (here : Location) (p : Path) (content : Bytes) (t : Tree) : Except FileError Tree :=
  match t.locate here p with
  | .error e => .error e
  | .ok l =>
    match t.get? l with
    -- A file that is not there is made; the directory around it has to be there.
    | some .directory => .error .isDirectory
    | _ => .ok (t.put l (.file content))

/-- Do two paths lead to the same node? -/
def isSame (here : Location) (p q : Path) (t : Tree) : Bool :=
  match t.locate here p, t.locate here q with
  | .ok l, .ok m => l = m && (t.get? l).isSome
  | _, _ => false

/-! ## §4. Directories. -/

/-- The tree with a new directory in a directory that is there. -/
def makeDirectory (here : Location) (p : Path) (t : Tree) : Except FileError Tree :=
  match t.locate here p with
  | .error e => .error e
  | .ok l =>
    match t.get? l with
    | some _ => .error .exists
    | none => .ok (t.put l .directory)

/-- The tree with a directory, which may be there, and no error then. -/
def settled (here : Location) (p : Path) (t : Tree) : Tree × Option (Path × FileError) :=
  match t.makeDirectory here p with
  | .ok t => (t, none)
  | .error e => if e ≠ .missing ∧ t.isDirectory here p then (t, none) else (t, some (p, e))

/-- The tree with a directory and the directories that lead to it, and the error
with its path if one of them cannot be made. -/
def ensured (here : Location) (p : Path) (t : Tree) : Tree × Option (Path × FileError) :=
  match t.makeDirectory here p with
  | .ok t => (t, none)
  | .error .missing =>
    if _h : p.parts = [] then (t, some (p, .missing))
    else
      match ensured here p.parent t with
      | (t, none) => t.settled here p
      | failed => failed
  | .error e => if t.isDirectory here p then (t, none) else (t, some (p, e))
termination_by p.parts.length
decreasing_by
  have := List.length_pos_iff.2 _h
  simp only [Path.parent, List.length_dropLast]
  omega

end Tree
end Repin
