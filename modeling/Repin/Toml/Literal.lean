/-
  Repin.Toml.Literal
  ──────────────────
  **TOML VALUES AS TEXT.**

  `Toml.text` is how a value is shown on its own: a string as it is, an array or
  a table as a literal on one line, in which strings are quoted.
-/
import Repin.Text.Quoted
import Repin.Toml.Basic

namespace Repin.Toml

/-- The zone of a moment in a literal. -/
def zoneLiteral (offset : Int) : Text :=
  let seconds := offset * 60
  let delta : Text :=
    if seconds = 0 then "0"
    else if seconds < 0 then "days=-1, seconds=" ++ Text.integer (86400 + seconds)
    else "seconds=" ++ Text.integer seconds
  let name : Text := if seconds = 0 then "UTC" else offsetText offset
  "datetime.timezone(datetime.timedelta(" ++ delta ++ "), " ++ Text.quoted name ++ ")"

/-- A scalar as a literal. -/
def Scalar.literal : Scalar → Text
  | .string s => Text.quoted s
  | .moment m =>
    match m with
    | .date _ => "Date(" ++ m.fields ++ ")"
    | .time _ => "Time(" ++ m.fields ++ ")"
    | .dateTime _ _ none => "DateTime(" ++ m.fields ++ ")"
    | .dateTime _ _ (some n) => "DateTime(" ++ m.fields ++ ", tzinfo=" ++ zoneLiteral n ++ ")"
  | s => s.text

mutual

/-- A value as a literal. -/
def literal : Toml → Text
  | .scalar _ s => s.literal
  | .array vs => '[' :: elementLiterals vs ++ [']']
  | .table _ t => '\x7b' :: entryLiterals t ++ ['\x7d']
  | .tables ts => '[' :: tableLiterals ts ++ [']']

/-- Elements with commas between them. -/
def elementLiterals : List Toml → Text
  | [] => []
  | [v] => literal v
  | v :: vs => literal v ++ ", " ++ elementLiterals vs

/-- Entries with commas between them. -/
def entryLiterals : List (Text × Toml) → Text
  | [] => []
  | [(k, v)] => Text.quoted k ++ ": " ++ literal v
  | (k, v) :: t => Text.quoted k ++ ": " ++ literal v ++ ", " ++ entryLiterals t

/-- Tables with commas between them. -/
def tableLiterals : List (List (Text × Toml)) → Text
  | [] => []
  | [t] => '\x7b' :: entryLiterals t ++ ['\x7d']
  | t :: ts => '\x7b' :: entryLiterals t ++ "\x7d, " ++ tableLiterals ts

end

/-- A value as text. -/
def text : Toml → Text
  | .scalar _ s => s.text
  | v => v.literal

end Repin.Toml
