/-
  Repin.Toml.Parser
  ─────────────────
  **THE STATEMENTS OF A TOML DOCUMENT.**

  The grammar over tokens.  Each token carries its place, and a scalar keeps the
  place of the token that spells it.  Blanks may stand between all parts of a
  line; line ends and comments may stand between the parts of an array and of a
  table in braces, and a comma may follow their last part.  A limit on how deep
  arrays and tables in braces nest is left out.
-/
import Repin.Toml.Basic

namespace Repin.Toml

/-- The tokens that are left, each with its place. -/
abbrev Tokens := List (Token × Nat)

/-! ## §1. Spaces. -/

/-- Spaces and tabs. -/
def Token.isBlank : Token → Bool
  | .blank _ => true
  | _ => false

/-- Spaces and tabs, comments and line ends. -/
def Token.isSpace : Token → Bool
  | .blank _ => true
  | .comment _ => true
  | .lineEnd _ => true
  | _ => false

/-- What is left behind spaces and tabs. -/
def skipBlanks (ts : Tokens) : Tokens := ts.dropWhile (fun t => t.1.isBlank)

/-- What is left behind spaces, tabs, comments and line ends. -/
def skipSpaces (ts : Tokens) : Tokens := ts.dropWhile (fun t => t.1.isSpace)

/-- What is left behind the given mark. -/
def behindMark? (c : Char) : Tokens → Option Tokens
  | (.mark d, _) :: r => if c = d then some r else none
  | _ => none

/-- What is left behind the end of a line, with or without a comment before it. -/
def behindLine? (ts : Tokens) : Option Tokens :=
  match skipBlanks ts with
  | [] => some []
  | (.lineEnd _, _) :: r => some r
  | (.comment _, _) :: [] => some []
  | (.comment _, _) :: (.lineEnd _, _) :: r => some r
  | _ => none

/-! ## §2. Keys. -/

/-- A token that can be part of a dotted key. -/
def Token.isOfKey : Token → Bool
  | .blank _ => true
  | .word _ => true
  | .string .basic _ => true
  | .string .literal _ => true
  | _ => false

/-- A part of a dotted key: a name, or a dot between names. -/
inductive KeyPart where
  | name (s : Text)
  | dot
  deriving DecidableEq, Repr

/-- A character of a key without quotes. -/
def isBare (c : Char) : Bool :=
  ('a' ≤ c && c ≤ 'z') || ('A' ≤ c && c ≤ 'Z') || Text.isDigit c || c = '-' || c = '_'

/-- The parts that a word holds: names with dots between them, before the first
or behind the last. -/
def wordParts? (s : Text) : Option (List KeyPart) :=
  let names := s.splitOn '.'
  if names.flatten.all isBare then
    some ([KeyPart.dot].intercalate (names.map (fun n => if n.isEmpty then [] else [.name n])))
  else none

/-- The parts of a dotted key that a token holds. -/
def keyParts? : Token → Option (List KeyPart)
  | .word s => wordParts? s
  | .string quote body => (stringValue? quote body).map (fun s => [.name s])
  | _ => some []

/-- Names with a dot between each two. -/
def dottedNames? : List KeyPart → Option KeyPath
  | [.name s] => some [s]
  | .name s :: .dot :: r => (dottedNames? r).map (s :: ·)
  | _ => none

/-- A dotted key, and what is left behind it and behind the blanks that follow. -/
def key? (ts : Tokens) : Option (KeyPath × Tokens) := do
  let parts ← (ts.takeWhile (fun t => t.1.isOfKey)).mapM (fun t => keyParts? t.1)
  let path ← dottedNames? parts.flatten
  return (path, ts.dropWhile (fun t => t.1.isOfKey))

/-! ## §3. Values.  The first argument bounds the depth of the recursion. -/

/-- A value that a word begins: a date takes in a time that stands one space
behind it. -/
def wordAt? (place : Nat) (s : Text) (r : Tokens) : Option (Toml × Tokens) :=
  match isDate s, r with
  -- What follows need not be a time: then the two words are no value together.
  | true, (.blank [' '], _) :: (.word t, _) :: r =>
    (wordValue? (s ++ ' ' :: t)).map (fun v => (.scalar place v, r))
  | _, _ => (wordValue? s).map (fun v => (.scalar place v, r))

mutual

/-- A value. -/
def value? : Nat → Tokens → Option (Toml × Tokens)
  | 0, _ => none
  | fuel + 1, ts =>
    match ts with
    | (.string quote body, place) :: r =>
      (stringValue? quote body).map (fun s => (.scalar place (.string s), r))
    | (.word s, place) :: r => wordAt? place s r
    | (.mark '[', _) :: r =>
      match behindMark? ']' (skipSpaces r) with
      | some r => some (.array [], r)
      | none => (elements? fuel (skipSpaces r)).map (fun p => (.array p.1, p.2))
    | (.mark '\x7b', _) :: r =>
      match behindMark? '\x7d' (skipSpaces r) with
      | some r => some (.table .closed [], r)
      | none => do
        let (items, r) ← items? fuel (skipSpaces r)
        -- The items are assigned as on lines of their own, so none may be there twice.
        let t ← Table.assignAll? items []
        return (.table .closed t, r)
    | _ => none

/-- The elements of an array, up to its closing bracket. -/
def elements? : Nat → Tokens → Option (List Toml × Tokens)
  | 0, _ => none
  | fuel + 1, ts => do
    let (v, r) ← value? fuel ts
    match behindMark? ']' (skipSpaces r) with
    | some r => return ([v], r)
    | none =>
      let r ← behindMark? ',' (skipSpaces r)
      -- The comma may be the last thing in the brackets.
      match behindMark? ']' (skipSpaces r) with
      | some r => return ([v], r)
      | none =>
        let (vs, r) ← elements? fuel (skipSpaces r)
        return (v :: vs, r)

/-- The items of a table in braces, up to its closing brace. -/
def items? : Nat → Tokens → Option (List (KeyPath × Toml) × Tokens)
  | 0, _ => none
  | fuel + 1, ts => do
    let (path, r) ← key? ts
    let r ← behindMark? '=' r
    let (v, r) ← value? fuel (skipBlanks r)
    match behindMark? '\x7d' (skipSpaces r) with
    | some r => return ([(path, v)], r)
    | none =>
      let r ← behindMark? ',' (skipSpaces r)
      match behindMark? '\x7d' (skipSpaces r) with
      | some r => return ([(path, v)], r)
      | none =>
        let (items, r) ← items? fuel (skipSpaces r)
        return ((path, v) :: items, r)

end

/-! ## §4. Statements. -/

/-- A header behind its first bracket: is it doubled, which path does it open,
and what is left behind its line? -/
def header? (r : Tokens) : Option (Statement × Tokens) :=
  match behindMark? '[' r with
  | some r => do
    let (path, r) ← key? r
    let r ← behindMark? ']' (← behindMark? ']' r)
    return (.doubledHeader path, ← behindLine? r)
  | none => do
    let (path, r) ← key? r
    let r ← behindMark? ']' r
    return (.header path, ← behindLine? r)

/-- An assignment, and what is left behind its line. -/
def assignment? (fuel : Nat) (ts : Tokens) : Option (Statement × Tokens) := do
  let (path, r) ← key? ts
  let r ← behindMark? '=' r
  let (v, r) ← value? fuel (skipBlanks r)
  return (.assignment path v, ← behindLine? r)

/-- The statements on the lines that are left. -/
def statements? : Nat → Tokens → Option (List Statement)
  | 0, _ => none
  | fuel + 1, ts =>
    match skipBlanks ts with
    | [] => some []
    | (.lineEnd _, _) :: r => statements? fuel r
    | (.comment _, _) :: r => statements? fuel r
    -- No assignment begins with a bracket.
    | (.mark '[', _) :: r => do
      let (s, r) ← header? r
      return s :: (← statements? fuel r)
    | ts => do
      let (s, r) ← assignment? fuel ts
      return s :: (← statements? fuel r)

/-- The table that a list of tokens describes.  Each step reads at least one
token, so a depth of their number is enough. -/
def table? (ts : List Token) : Option Table := do
  let ss ← statements? (ts.length + 1) ts.zipIdx
  Table.ofStatements? ss

end Repin.Toml
