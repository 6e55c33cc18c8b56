/-
  Repin.Tag.Entry
  ───────────────
  **PIN ENTRIES IN THE TEXT OF A MANIFEST.**

  A pin entry is the text

      git = "URL", tag = "TAG"        or        source = "URL", tag = "TAG"

  with the source URL taken literally and a nonempty tag without double quotes.
  `Entry.first?` finds the entry that begins leftmost.  It looks at characters
  only: an entry may stand in a comment, and a tag may span lines.
-/
import Repin.Tag.Basic
import Repin.Text.Quoted

namespace Repin

/-- A pin entry in a text. -/
structure Entry where
  /-- The tag between the last two quotes of the entry. -/
  tag : Text
  /-- How many characters stand before the entry. -/
  start : Nat
  /-- How many characters stand before the end of the entry. -/
  stop : Nat
  deriving DecidableEq, Repr

namespace Entry

/-- The two words that can begin an entry. -/
def keywords : List Text := ["git", "source"]

/-- What stands between the keyword and the tag, up to the opening quote. -/
def middle (url : Text) : Text := " = \"" ++ url ++ "\", tag = \""

/-- The tag at the beginning of a text, up to its closing quote, and what
follows the quote. -/
def tagAt? (s : Text) : Option (Text × Text) :=
  match s.span (fun c => c ≠ '"') with
  | ([], _) => none
  | (_, []) => none
  | (tag, _ :: rest) => some (tag, rest)

/-- The tag of an entry that begins the text, and what follows the entry. -/
def at? (url s : Text) : Option (Text × Text) :=
  keywords.findSome? (fun word => do
    let s ← Text.behind? word s
    let s ← Text.behind? (middle url) s
    tagAt? s)

/-- The leftmost entry of the source URL in a text before which `skipped`
characters stand. -/
def firstFrom? (url : Text) (skipped : Nat) : Text → Option Entry
  | [] => none
  | c :: s =>
    match at? url (c :: s) with
    | some (tag, rest) => some { tag, start := skipped, stop := skipped + (s.length + 1 - rest.length) }
    | none => firstFrom? url (skipped + 1) s

/-- The leftmost entry of the source URL. -/
def first? (url s : Text) : Option Entry := firstFrom? url 0 s

end Entry
end Repin
