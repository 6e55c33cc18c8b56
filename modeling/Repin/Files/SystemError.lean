/-
  Repin.Files.SystemError
  ───────────────────────
  **ERRORS OF THE SYSTEM.**

  An error of the system has a number, a text and often the path at which it
  arose, and is shown as  `[Errno 2] No such file or directory: 'Cargo.toml'`.
-/
import Repin.Files.Tree
import Repin.Text.Quoted

namespace Repin

/-- An error that the system reports. -/
structure SystemError where
  number : Int
  text : Text
  /-- The path at which it arose, as text. -/
  place : Option Text
  deriving DecidableEq, Repr

namespace SystemError

/-- What is said about an error of the system. -/
def message (e : SystemError) : Text :=
  "[Errno " ++ Text.integer e.number ++ "] " ++ e.text
    ++ (match e.place with
      | some place => ": " ++ Text.quoted place
      | none => [])

/-- The number and the text of an error on files. -/
def described : FileError → Int × Text
  | .missing => (2, "No such file or directory")
  | .exists => (17, "File exists")
  | .notDirectory => (20, "Not a directory")
  | .isDirectory => (21, "Is a directory")
  | .unusable => (22, "Invalid argument")

/-- The error that arises when an operation on the file at `p` fails. -/
def ofFile (p : Path) (e : FileError) : SystemError :=
  ⟨(described e).1, (described e).2, some p.text⟩

end SystemError
end Repin
