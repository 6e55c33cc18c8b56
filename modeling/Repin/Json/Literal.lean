/-
  Repin.Json.Literal
  ──────────────────
  **VALUES IN MESSAGES.**

  A message shows a value as a literal on one line: strings quoted as texts are,
  the words `None`, `True` and `False`, elements and members with commas between
  them.
-/
import Repin.Decimal.Notation
import Repin.Json.Basic
import Repin.Text.Quoted

namespace Repin
namespace Json

mutual

/-- A value as a literal. -/
def literal : Json → Text
  | .null => "None"
  | .bool b => if b then "True" else "False"
  | .int n => Text.integer n
  | .float x => x.text
  | .string s => Text.quotedPoints s
  | .array vs => '[' :: elementLiterals vs ++ [']']
  | .object ms => '\x7b' :: memberLiterals ms ++ ['\x7d']

/-- Elements with commas between them. -/
def elementLiterals : List Json → Text
  | [] => []
  | [v] => literal v
  | v :: vs => literal v ++ ", " ++ elementLiterals vs

/-- Members with commas between them. -/
def memberLiterals : List (List CodePoint × Json) → Text
  | [] => []
  | [(k, v)] => Text.quotedPoints k ++ ": " ++ literal v
  | (k, v) :: ms => Text.quotedPoints k ++ ": " ++ literal v ++ ", " ++ memberLiterals ms

end

end Json
end Repin
