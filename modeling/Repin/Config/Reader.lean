/-
  Repin.Config.Reader
  ───────────────────
  **READING A CONFIGURATION.**

  A configuration is read from the members of an object; a member that is left
  out has its default, one that is not known is passed over.  Reading is lenient:
  numbers and truth values may be given as text, whole numbers as other numbers.
  All defects are found, in the order of the settings.
-/
import Repin.Config.Basic
import Repin.Decimal.Reader
import Repin.Json.Basic
import Repin.Text.Class

namespace Repin
namespace Config

/-! ## §1. Defects. -/

/-- What is wrong with a setting. -/
inductive Problem where
  | notString
  | notPath
  | notList
  | notBool
  /-- A text or a number that stands for no truth value. -/
  | unreadableBool
  | notInt
  /-- A text that stands for no whole number. -/
  | unreadableInt
  /-- A number with a fraction. -/
  | fraction
  /-- An infinite number, or no number. -/
  | notFinite
  | tooSmall
  | tooLarge
  | notFloat
  /-- A text that stands for no number. -/
  | unreadableFloat
  deriving DecidableEq, Repr

/-- The code of a problem. -/
def Problem.code : Problem → Text
  | .notString => "string_type"
  | .notPath => "path_type"
  | .notList => "list_type"
  | .notBool => "bool_type"
  | .unreadableBool => "bool_parsing"
  | .notInt => "int_type"
  | .unreadableInt => "int_parsing"
  | .fraction => "int_from_float"
  | .notFinite => "finite_number"
  | .tooSmall => "greater_than_equal"
  | .tooLarge => "less_than_equal"
  | .notFloat => "float_type"
  | .unreadableFloat => "float_parsing"

/-- A problem, where it is: the setting and, in a list, the index. -/
structure Defect where
  setting : Text
  index : Option Nat
  problem : Problem
  deriving DecidableEq, Repr

/-! ## §2. Values. -/

/-- The problems of a value, each with its index in a list. -/
abbrev Problems := List (Option Nat × Problem)

/-- One problem with the value as a whole. -/
def single (p : Problem) : Problems := [(none, p)]

/-- The text of a string. -/
def string? : Json → Option Text
  | .string s => CodePoint.text? s
  | _ => none

/-- Reads a text. -/
def readText (v : Json) : Except Problems Text :=
  match string? v with
  | some t => .ok t
  | none => .error (single .notString)

/-- Reads a path. -/
def readPath (v : Json) : Except Problems Path :=
  match string? v with
  | some t => .ok (Path.ofText t)
  | none => .error (single .notPath)

/-- Reads a list of texts. -/
def readTexts : Json → Except Problems (List Text)
  | .array vs =>
    let wrong := vs.zipIdx.filter (fun v => (string? v.1).isNone)
    if wrong.isEmpty then .ok (vs.filterMap string?)
    else .error (wrong.map (fun v => (some v.2, .notString)))
  | _ => .error (single .notList)

/-- The words for no and for yes. -/
def boolWords : List (String × Bool) :=
  [("0", false), ("off", false), ("f", false), ("false", false), ("n", false), ("no", false),
   ("1", true), ("on", true), ("t", true), ("true", true), ("y", true), ("yes", true)]

/-- The truth value that a number stands for. -/
def boolOfInt (n : Int) : Except Problems Bool :=
  if n = 0 then .ok false else if n = 1 then .ok true else .error (single .unreadableBool)

/-- Reads a truth value. -/
def readBool : Json → Except Problems Bool
  | .bool b => .ok b
  | .int n => boolOfInt n
  | .float x =>
    match x.int? with
    | some n => boolOfInt n
    | none => .error (single .notBool)
  | .string s =>
    match (CodePoint.text? s).bind
        (fun t => boolWords.find? (fun w => w.1.toList = Text.lowered t)) with
    | some w => .ok w.2
    | none => .error (single .unreadableBool)
  | _ => .error (single .notBool)

/-- The text without its underscores, none of which may stand at an end or beside
another one. -/
def joined? (s : Text) : Option Text :=
  let parts := s.splitOn '_'
  if parts.any List.isEmpty then none else some parts.flatten

/-- The whole number that a text stands for: digits, in groups or not, with a sign
or without, and with nothing but zeros behind a point. -/
def intOfText? (s : Text) : Option Int := do
  let (negative, r) := Text.signed (Text.trimmedOf Text.isSpace s)
  if !(r.head?.any Text.isDigit) then none
  let (whole, fraction) := Text.cut '.' r
  if !((fraction.getD []).all (· = '0')) then none
  let n ← Text.value? (← joined? whole)
  return if negative then -n else n

/-- Reads a whole number. -/
def readInt : Json → Except Problems Int
  | .bool b => .ok (if b then 1 else 0)
  | .int n => .ok n
  | .float x =>
    match x.int? with
    | some n => .ok n
    | none => .error (single (if x.isFinite then .fraction else .notFinite))
  | .string s =>
    match (CodePoint.text? s).bind intOfText? with
    | some n => .ok n
    | none => .error (single .unreadableInt)
  | _ => .error (single .notInt)

/-- Reads a page size. -/
def readPageSize (v : Json) : Except Problems PageSize := do
  let n ← readInt v
  if h : n < 1 then .error (single .tooSmall)
  else if h' : 100 < n then .error (single .tooLarge)
  else .ok ⟨n.toNat, by omega⟩

/-- The number that a text stands for. -/
def doubleOfText? (s : Text) : Option Double :=
  (Double.read? (Text.trimmedOf Text.isSpace s)).or ((joined? s).bind Double.read?)

/-- Reads a number; a whole number beyond the largest one is none. -/
def readDouble : Json → Except Problems Double
  | .bool b => .ok (Double.ofInt (if b then 1 else 0))
  | .int n =>
    let x := Double.ofInt n
    if x.isFinite then .ok x else .error (single .notFloat)
  | .float x => .ok x
  | .string s =>
    match (CodePoint.text? s).bind doubleOfText? with
    | some x => .ok x
    | none => .error (single .unreadableFloat)
  | _ => .error (single .notFloat)

/-- Reads what may be left open by a null. -/
def readOptional {α : Type} (readSome : Json → Except Problems α) : Json → Except Problems (Option α)
  | .null => .ok none
  | v => (readSome v).map some

/-! ## §3. Configurations. -/

/-- Reading that goes on behind a defect and collects all of them. -/
abbrev Check := StateM (List Defect)

/-- Reads a setting, which has a default; after a defect goes on with the default. -/
def setting {α : Type} (members : Json.Members) (name : String) (default : α)
    (readValue : Json → Except Problems α) : Check α :=
  match Json.Members.get? (CodePoint.ofText name) members with
  | none => pure default
  | some v =>
    match readValue v with
    | .ok a => pure a
    | .error ps => do
      modify (· ++ ps.map (fun p => ⟨name, p.1, p.2⟩))
      return default

/-- Reads all settings. -/
def settings (ms : Json.Members) : Check Config := do
  let d : Config := {}
  return {
    root := ← setting ms "repo_root" d.root readPath
    manifest := ← setting ms "manifest" d.manifest readText
    owner := ← setting ms "owner" d.owner readText
    repo := ← setting ms "repo" d.repo readText
    sourceUrl := ← setting ms "source_url" d.sourceUrl readText
    tagPrefix := ← setting ms "tag_prefix" d.tagPrefix readText
    allowPrerelease := ← setting ms "allow_prerelease" d.allowPrerelease readBool
    apiUrl := ← setting ms "api_url" d.apiUrl readText
    apiToken := ← setting ms "api_token" d.apiToken (readOptional readText)
    perPage := ← setting ms "per_page" d.perPage readPageSize
    testCommand := ← setting ms "test_command" d.testCommand readTexts
    remote := ← setting ms "remote" d.remote readText
    branch := ← setting ms "branch" d.branch readText
    httpTimeout := ← setting ms "http_timeout" d.httpTimeout (readOptional readDouble)
    commandTimeout := ← setting ms "command_timeout" d.commandTimeout (readOptional readDouble)
    buildOutput := ← setting ms "build_output" d.buildOutput readText
    distDir := ← setting ms "dist_dir" d.distDir readText }

/-- Reads a configuration from the members of an object. -/
def read (ms : Json.Members) : Except (List Defect) Config :=
  match (settings ms).run [] with
  | (c, []) => .ok c
  | (_, defects) => .error defects

end Config
end Repin
