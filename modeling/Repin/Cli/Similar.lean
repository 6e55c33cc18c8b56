/-
  Repin.Cli.Similar
  ─────────────────
  **SIMILAR WORDS.**

  Two words are compared by what they have in common: a longest common block,
  the leftmost one, and again what they have in common before it and behind it.
  They are similar when at least three fifths of their characters are in common
  blocks.
-/
import Repin.Version.Order

namespace Repin
namespace Cli

/-! ## §1. Common blocks. -/

/-- How many characters two texts have in common at their beginning. -/
def commonStart : Text → Text → Nat
  | a :: s, b :: t => if a = b then commonStart s t + 1 else 0
  | _, _ => 0

/-- A block of `size` characters that stands at place `left` of one text and at
place `right` of another. -/
structure Block where
  left : Nat
  right : Nat
  size : Nat
  deriving DecidableEq, Repr

/-- The longer of two blocks, the first one if they are equally long. -/
def Block.longer (b c : Block) : Block := if b.size < c.size then c else b

/-- A longest common block, the leftmost one. -/
def longestBlock (s t : Text) : Block :=
  (List.range s.length).foldl
    (fun best i =>
      (List.range t.length).foldl
        (fun best j => best.longer ⟨i, j, commonStart (s.drop i) (t.drop j)⟩) best)
    ⟨0, 0, 0⟩

/-- How many characters are in common blocks; `fuel` bounds the number of blocks. -/
def commonCount : Nat → Text → Text → Nat
  | 0, _, _ => 0
  | fuel + 1, s, t =>
    let b := longestBlock s t
    if b.size = 0 then 0
    else b.size + commonCount fuel (s.take b.left) (t.take b.right)
      + commonCount fuel (s.drop (b.left + b.size)) (t.drop (b.right + b.size))

/-! ## §2. Similarity. -/

/-- How similar two words are, as a fraction: common characters and all
characters, those of both words counted. -/
structure Similarity where
  common : Nat
  all : Nat
  deriving DecidableEq, Repr

/-- How similar `candidate` is to `word`. -/
def similarity (candidate word : Text) : Similarity :=
  ⟨2 * commonCount (candidate.length + 1) candidate word, candidate.length + word.length⟩

/-- Are at least three fifths in common? -/
def Similarity.isClose (x : Similarity) : Bool := 3 * x.all ≤ 5 * x.common

/-- Is the first fraction at least the second one? -/
def Similarity.atLeast (x y : Similarity) : Bool := y.common * x.all ≤ x.common * y.all

/-- Comes the first candidate before the second one in a list of the best?  Of
equally similar ones the later one in the alphabet does. -/
def better (word a b : Text) : Bool :=
  let x := similarity a word
  let y := similarity b word
  if x.atLeast y && y.atLeast x then (Text.compare b a).isLE else x.atLeast y

/-- The at most three candidates that are most similar to a word. -/
def closest (word : Text) (candidates : List Text) : List Text :=
  ((candidates.filter (fun c => (similarity c word).isClose)).mergeSort (better word)).take 3

/-- Texts in the order of the alphabet. -/
def alphabetical (texts : List Text) : List Text :=
  texts.mergeSort (fun a b => (Text.compare a b).isLE)

example : closest "--skip" ["--skip-publish", "--remote"] = ["--skip-publish".toList] := by
  decide +kernel
example : closest "updat" ["package", "release-notes", "update"] = ["update".toList] := by
  decide +kernel

end Cli
end Repin
