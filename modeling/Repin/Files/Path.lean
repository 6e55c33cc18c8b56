/-
  Repin.Files.Path
  ────────────────
  **PATHS.**

  A path is what it is anchored at and its parts.  Reading a path drops empty
  parts and single dots and keeps double dots; a path without anchor and parts is
  written as a dot.  Two slashes at the beginning are an anchor of their own,
  three or more are the same as one.
-/
import Repin.Text.Basic

namespace Repin

/-- A path: how many slashes it begins with, none, one or two, and its parts. -/
structure Path where
  anchor : Nat
  parts : List Text
  deriving DecidableEq, Repr

namespace Path

/-- The path of the working directory, relative to itself. -/
def here : Path := ⟨0, []⟩

/-- A part that is kept when a path is read. -/
def isPart (s : Text) : Bool := !s.isEmpty && s ≠ ['.']

/-- Reads a path. -/
def ofText (s : Text) : Path :=
  let slashes := (s.takeWhile (· = '/')).length
  ⟨if 3 ≤ slashes then 1 else slashes, (s.splitOn '/').filter isPart⟩

/-- Writes a path. -/
def text (p : Path) : Text :=
  if p.anchor = 0 ∧ p.parts = [] then ['.']
  else List.replicate p.anchor '/' ++ ['/'].intercalate p.parts

/-- The path `q` seen from `p`; an anchored `q` stands for itself. -/
def join (p q : Path) : Path := if q.anchor = 0 then ⟨p.anchor, p.parts ++ q.parts⟩ else q

/-- The path of a text seen from `p`. -/
def sub (p : Path) (s : Text) : Path := p.join (ofText s)

/-- The last part, empty if there is none. -/
def name (p : Path) : Text := p.parts.getLast?.getD []

/-- Can a file have the path?  A name cannot hold the character of number zero. -/
def isUsable (p : Path) : Bool := p.parts.all (fun s => !s.contains '\x00')

/-- The path without its last part. -/
def parent (p : Path) : Path := ⟨p.anchor, p.parts.dropLast⟩

example : (ofText "a//b/./c/").text = "a/b/c".toList := by decide
example : (ofText "//r").text = "//r".toList ∧ (ofText "///r").text = "/r".toList := by decide
example : (ofText "").text = ".".toList := by decide

end Path
end Repin
