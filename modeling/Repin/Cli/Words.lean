/-
  Repin.Cli.Words
  ───────────────
  **A COMMAND LINE AS WORDS.**

  Words stand apart by blanks.  Single quotes take everything up to the next one
  as it is; in double quotes a backslash escapes a double quote or a backslash,
  and outside of quotes it escapes any character.  Quoted parts and others join
  to one word when nothing stands between them.
-/
import Repin.Refusal

namespace Repin
namespace Cli

/-- Where a reader of a command line stands. -/
inductive Mode where
  /-- Between words. -/
  | between
  /-- In a word, outside of quotes. -/
  | word
  /-- Behind an opening quote. -/
  | quoted (quote : Char)
  /-- Behind a backslash, in double quotes or not. -/
  | escaped (inQuotes : Bool)
  deriving DecidableEq, Repr

/-- A character that separates words. -/
def isSeparator (c : Char) : Bool := c = ' ' || c = '\t' || c = '\r' || c = '\n'

/-- A quote. -/
def isQuote (c : Char) : Bool := c = '"' || c = '\''

/-- The words from a place on, with `w` read of the present one. -/
def wordsFrom : Mode → Text → Text → Except Refusal (List Text)
  | .between, _, [] => .ok []
  | .word, w, [] => .ok [w]
  | .quoted _, _, [] => .error .openQuotation
  | .escaped _, _, [] => .error .openEscape
  | .between, _, c :: r =>
    if isSeparator c then wordsFrom .between [] r
    else if isQuote c then wordsFrom (.quoted c) [] r
    else if c = '\\' then wordsFrom (.escaped false) [] r
    else wordsFrom .word [c] r
  | .word, w, c :: r =>
    if isSeparator c then (wordsFrom .between [] r).map (w :: ·)
    else if isQuote c then wordsFrom (.quoted c) w r
    else if c = '\\' then wordsFrom (.escaped false) w r
    else wordsFrom .word (w ++ [c]) r
  | .quoted q, w, c :: r =>
    if c = q then wordsFrom .word w r
    else if c = '\\' ∧ q = '"' then wordsFrom (.escaped true) w r
    else wordsFrom (.quoted q) (w ++ [c]) r
  | .escaped false, w, c :: r => wordsFrom .word (w ++ [c]) r
  | .escaped true, w, c :: r =>
    wordsFrom (.quoted '"') (w ++ (if c = '"' ∨ c = '\\' then [c] else ['\\', c])) r

/-- The words of a command line. -/
def words (s : Text) : Except Refusal (List Text) := wordsFrom .between [] s

example : (words "a \"b \\\"c\\\" d\"").toOption = some ["a".toList, "b \"c\" d".toList] := by decide
example : (words "a 'it'\\''s' ''").toOption = some ["a".toList, "it's".toList, []] := by decide

end Cli
end Repin
