/-
  Repin.Json.Reader
  ─────────────────
  **READING JSON DOCUMENTS.**

  A document is one value with blanks around it; a blank is a space, a tab, a
  line feed or a carriage return.  Beside the standard values, `NaN`, `Infinity`
  and `-Infinity` are numbers.  A numeral ends where the longest valid one ends.
  Values may nest as deep as they like and numerals may be as long as they like;
  the limits that a system may set on both are left out.

  A document that is not valid has one defect, which is found at one place: each
  function here gives what is left behind what it has read, or the defect with
  what is left from its place on, so the place is found by counting.
-/
import Repin.Decimal.Reader
import Repin.Json.Basic
import Repin.Text.Encoding

namespace Repin
namespace Json

/-! ## §1. Defects. -/

/-- What is wrong with a document. -/
inductive Defect where
  | byteOrderMark
  | expectedValue
  | expectedName
  | expectedColon
  | expectedComma
  | extraData
  | unterminatedString
  | controlCharacter
  | invalidEscape
  | invalidUnicodeEscape
  deriving DecidableEq, Repr

/-- What is said about a defect. -/
def Defect.description : Defect → Text
  | .byteOrderMark => "Unexpected UTF-8 BOM (decode using utf-8-sig)"
  | .expectedValue => "Expecting value"
  | .expectedName => "Expecting property name enclosed in double quotes"
  | .expectedColon => "Expecting ':' delimiter"
  | .expectedComma => "Expecting ',' delimiter"
  | .extraData => "Extra data"
  | .unterminatedString => "Unterminated string starting at"
  | .controlCharacter => "Invalid control character at"
  | .invalidEscape => "Invalid \\escape"
  | .invalidUnicodeEscape => "Invalid \\uXXXX escape"

/-- What is left of a document. -/
abbrev Rest := List CodePoint

/-- A defect, and what is left from its place on. -/
abbrev Miss := Defect × Rest

/-! ## §2. Blanks and words. -/

/-- A blank between the parts of a document. -/
def isBlank (p : CodePoint) : Bool :=
  p = .char ' ' || p = .char '\t' || p = .char '\n' || p = .char '\r'

/-- What is left behind the blanks. -/
def skipBlanks (s : Rest) : Rest := s.dropWhile isBlank

/-- What is left behind a word that the rest begins with. -/
def behindWord? (word : Text) (s : Rest) : Option Rest :=
  if (CodePoint.ofText word).isPrefixOf s then some (s.drop word.length) else none

/-- The values that are written as words. -/
def words : List (Text × Json) :=
  [("null", .null), ("true", .bool true), ("false", .bool false), ("NaN", .float .nan),
   ("Infinity", .float (.infinite false)), ("-Infinity", .float (.infinite true))]

/-- A value that is written as a word. -/
def word? (s : Rest) : Option (Json × Rest) :=
  words.findSome? (fun w => (behindWord? w.1 s).map (fun r => (w.2, r)))

/-! ## §3. Numbers. -/

/-- The run of ASCII digits that the rest begins with, and what is left. -/
def digitRun : Rest → Text × Rest
  | .char c :: r =>
    if Text.isDigit c then (c :: (digitRun r).1, (digitRun r).2) else ([], .char c :: r)
  | s => ([], s)

/-- The digits before the point: a zero alone, or a run that begins otherwise. -/
def wholePart? : Rest → Option (Text × Rest)
  -- Digits behind a zero at the beginning are not part of the numeral.
  | .char '0' :: r => some (['0'], r)
  | s => if (digitRun s).1.isEmpty then none else some (digitRun s)

/-- The digits behind a point; without any, the point is not part of the numeral. -/
def fractionPart (s : Rest) : Text × Rest :=
  match s with
  | .char '.' :: r => if (digitRun r).1.isEmpty then ([], s) else digitRun r
  | _ => ([], s)

/-- The exponent behind its letter; without digits, the letter is not part of the
numeral. -/
def exponentPart? (s : Rest) : Option Int × Rest :=
  match s with
  | .char e :: r =>
    if e = 'e' ∨ e = 'E' then
      let (negative, r) := match r with
        | .char '-' :: r => (true, r)
        | .char '+' :: r => (false, r)
        | r => (false, r)
      match Text.value? (digitRun r).1 with
      | some n => (some (if negative then -n else n), (digitRun r).2)
      | none => (none, s)
    else (none, s)
  | _ => (none, s)

/-- A number: an integer if it has neither a fraction nor an exponent. -/
def number? (s : Rest) : Option (Json × Rest) := do
  let (negative, r) := match s with
    | .char '-' :: r => (true, r)
    | r => (false, r)
  let (whole, r) ← wholePart? r
  let (fraction, r) := fractionPart r
  let (exponent?, r) := exponentPart? r
  if fraction.isEmpty && exponent?.isNone then
    let n ← Text.value? whole
    return (.int (if negative then -n else n), r)
  else return (.float (Double.ofParts negative whole fraction (exponent?.getD 0)), r)

/-! ## §4. Strings. -/

/-- A part of a string: a code point as it is, or the number of a unicode escape. -/
inductive Piece where
  | plain (p : CodePoint)
  | unit (n : Nat)
  deriving DecidableEq, Repr

/-- The code points of the pieces: two escapes in a row that are the halves of a
surrogate pair stand for one character. -/
def joined : List Piece → List CodePoint
  | [] => []
  | .plain p :: r => p :: joined r
  | .unit a :: .unit b :: r =>
    -- The second escape may begin a pair itself if the first one did not.
    if Text.isHigh a && Text.isLow b then point (Text.pairValue a b) :: joined r
    else point a :: joined (.unit b :: r)
  | .unit a :: r => point a :: joined r
where
  /-- The code point of a number that is one. -/
  point (n : Nat) : CodePoint := (CodePoint.ofNat? n).getD (.char '\x00')

/-- What an escaped letter stands for. -/
def escaped? : Char → Option Char
  | '"' => some '"'
  | '\\' => some '\\'
  | '/' => some '/'
  | 'b' => some '\x08'
  | 'f' => some '\x0c'
  | 'n' => some '\n'
  | 'r' => some '\r'
  | 't' => some '\t'
  | _ => none

/-- The pieces of a string up to its closing quote; `opening` is what is left from
its opening quote on.  Behind the digits of a unicode escape something must be
left. -/
def pieces (opening : Rest) : Rest → Except Miss (List Piece × Rest)
  | [] => .error (.unterminatedString, opening)
  | .char '"' :: r => .ok ([], r)
  -- A backslash at the very end escapes nothing: the string is what lacks its end.
  | [.char '\\'] => .error (.unterminatedString, opening)
  | .char '\\' :: .char 'u' :: a :: b :: c :: d :: r =>
    match r, (([a, b, c, d].mapM CodePoint.char?).bind (Text.valueIn? 16)) with
    | _ :: _, some n => do
      let (ps, r) ← pieces opening r
      return (.unit n :: ps, r)
    | _, _ => .error (.invalidUnicodeEscape, .char 'u' :: a :: b :: c :: d :: r)
  | .char '\\' :: .char 'u' :: r => .error (.invalidUnicodeEscape, .char 'u' :: r)
  | .char '\\' :: p :: r =>
    match p.char?.bind escaped? with
    | some c => do
      let (ps, r) ← pieces opening r
      return (.plain (.char c) :: ps, r)
    | none => .error (.invalidEscape, .char '\\' :: p :: r)
  | p :: r =>
    -- Control characters may stand in a string as escapes only.
    if p.toNat < 0x20 then .error (.controlCharacter, p :: r)
    else do
      let (ps, r) ← pieces opening r
      return (.plain p :: ps, r)

/-- The string whose opening quote stands at the beginning of `opening`, with `r`
what is left behind that quote. -/
def stringBody (opening r : Rest) : Except Miss (List CodePoint × Rest) := do
  let (ps, r) ← pieces opening r
  return (joined ps, r)

/-! ## §5. Values.  The first argument bounds the depth of the recursion. -/

mutual

/-- A value at the beginning of the rest. -/
def value : Nat → Rest → Except Miss (Json × Rest)
  | 0, s => .error (.expectedValue, s)
  | fuel + 1, s =>
    match s with
    | .char '"' :: r => do
      let (t, r) ← stringBody s r
      return (.string t, r)
    | .char '[' :: r =>
      match skipBlanks r with
      | .char ']' :: r => .ok (.array [], r)
      | r => do
        let (vs, r) ← elements fuel r
        return (.array vs, r)
    | .char '{' :: r =>
      match skipBlanks r with
      | .char '}' :: r => .ok (.object [], r)
      | r => do
        let (ms, r) ← members fuel r
        return (.object (Members.ofWritten ms), r)
    | _ =>
      -- Words first: a minus sign begins an infinity as well as a number.
      match (word? s).or (number? s) with
      | some found => .ok found
      | none => .error (.expectedValue, s)

/-- The elements of an array up to its closing bracket. -/
def elements : Nat → Rest → Except Miss (List Json × Rest)
  | 0, s => .error (.expectedValue, s)
  | fuel + 1, s => do
    let (v, r) ← value fuel s
    match skipBlanks r with
    | .char ']' :: r => return ([v], r)
    | .char ',' :: r =>
      let (vs, r) ← elements fuel (skipBlanks r)
      return (v :: vs, r)
    | r => .error (.expectedComma, r)

/-- The members of an object up to its closing brace. -/
def members : Nat → Rest → Except Miss (Members × Rest)
  | 0, s => .error (.expectedName, s)
  | fuel + 1, s =>
    match s with
    | .char '"' :: r => do
      let (name, r) ← stringBody s r
      match skipBlanks r with
      | .char ':' :: r =>
        let (v, r) ← value fuel (skipBlanks r)
        match skipBlanks r with
        | .char '\x7d' :: r => return ([(name, v)], r)
        | .char ',' :: r =>
          let (ms, r) ← members fuel (skipBlanks r)
          return ((name, v) :: ms, r)
        | r => .error (.expectedComma, r)
      | r => .error (.expectedColon, r)
    | s => .error (.expectedName, s)

end

/-! ## §6. Documents. -/

/-- The value of a document.  Each step of the recursion reads something, so a
depth of its length is enough. -/
def document (s : Rest) : Except Miss Json := do
  let (v, r) ← value (s.length + 1) (skipBlanks s)
  match skipBlanks r with
  | [] => return v
  | r => .error (.extraData, r)

/-- A defect and the place where it is: how many code points stand before it. -/
structure Fault where
  defect : Defect
  place : Nat
  deriving DecidableEq, Repr

/-- What is said about a fault in the document `s`, with its line and its column. -/
def Fault.message (f : Fault) (s : Text) : Text :=
  let before := (s.take f.place).splitOn '\n'
  let column := (before.getLast?.getD []).length + 1
  f.defect.description ++ ": line " ++ Text.digits before.length ++ " column "
    ++ Text.digits column ++ " (char " ++ Text.digits f.place ++ ")"

/-- Reads a document that is given as text, in which no byte order mark may stand. -/
def ofDocument (s : Text) : Except Fault Json :=
  let points := CodePoint.ofText s
  if s.head? = some '\ufeff' then .error ⟨.byteOrderMark, 0⟩
  else match document points with
    | .ok v => .ok v
    | .error (defect, r) => .error ⟨defect, points.length - r.length⟩

/-- Reads a document that is given as bytes in one of the encodings. -/
def ofBytes? (bytes : Bytes) : Option Json := do
  let points ← Text.decodeDetected? bytes
  (document points).toOption

end Json
end Repin
