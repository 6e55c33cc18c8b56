/-
  Repin.Refusal
  ─────────────
  **VALUES THAT A READER TURNS DOWN.**

  A refusal says which text could not be read as what.  It is not tied to the
  manifest, the listing or the packaging in which the text was found.
-/
import Repin.Text.Quoted

namespace Repin

/-- Why a text was turned down. -/
inductive Refusal where
  /-- The text is no version. -/
  | notVersion (text : Text)
  /-- The tag does not begin with the expected prefix. -/
  | otherPrefix (tag expected : Text)
  /-- The text names no kind of version bump. -/
  | notBump (text : Text)
  /-- A quotation in a command line is not closed. -/
  | openQuotation
  /-- A command line ends in an escape without a character to escape. -/
  | openEscape
  /-- A path holds the character of number zero. -/
  | zeroInPath
  deriving DecidableEq, Repr

namespace Refusal

/-- What is said about a refusal. -/
def message : Refusal → Text
  | .notVersion text => text ++ " is not valid SemVer string"
  | .otherPrefix tag expected =>
    "Tag " ++ Text.quoted tag ++ " does not start with " ++ Text.quoted expected
  | .notBump text => Text.quoted text ++ " is not a valid BumpKind"
  | .openQuotation => "No closing quotation"
  | .openEscape => "No escaped character"
  | .zeroInPath => "embedded null byte"

end Refusal
end Repin
