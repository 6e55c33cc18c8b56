/-
  Repin.Text.Encoding
  ───────────────────
  **TEXT AS BYTES.**

  A file holds bytes.  `encode` is the UTF-8 form of a text, `decode?` reads it
  back and refuses every other byte sequence.  The body of a reply may also be in
  one of the wider encodings: `decodeDetected?` tells them apart by a byte order
  mark or by the zeros among the first four bytes, and lets unpaired surrogates
  through.

  `Base64.encode` writes bytes with sixty-four characters, three bytes as four
  characters of six bits each.  Where the last group has only one or two bytes, equal
  signs make up for the missing ones.
-/
import Repin.Text.CodePoint

namespace Repin

/-- A sequence of bytes. -/
abbrev Bytes := List UInt8

namespace Text

/-! ## §1. UTF-8. -/

/-- A continuation byte that carries the last six bits of `n`. -/
def continuation (n : Nat) : UInt8 := UInt8.ofNat (0x80 + n % 64)

/-- The UTF-8 form of one character. -/
def encodeChar (c : Char) : Bytes :=
  let n := c.toNat
  if n < 0x80 then [UInt8.ofNat n]
  else if n < 0x800 then [UInt8.ofNat (0xC0 + n / 0x40), continuation n]
  else if n < 0x10000 then
    [UInt8.ofNat (0xE0 + n / 0x1000), continuation (n / 0x40), continuation n]
  else
    [UInt8.ofNat (0xF0 + n / 0x40000), continuation (n / 0x1000), continuation (n / 0x40),
      continuation n]

/-- The UTF-8 form of a text. -/
def encode (s : Text) : Bytes := s.flatMap encodeChar

/-- The six bits that a continuation byte carries. -/
def tail? (b : UInt8) : Option Nat :=
  if 0x80 ≤ b.toNat ∧ b.toNat < 0xC0 then some (b.toNat - 0x80) else none

/-- The code point with number `n`, if it takes at least the number `least`. -/
def pointFrom? (least n : Nat) : Option CodePoint :=
  if least ≤ n then CodePoint.ofNat? n else none

/-- The code points of a byte sequence in UTF-8, unpaired surrogates included. -/
def decodePoints? : Bytes → Option (List CodePoint)
  | [] => some []
  | a :: r =>
    let n := a.toNat
    -- The first byte tells how many follow.  A number that fewer bytes could hold is refused.
    if n < 0x80 then do
      let p ← pointFrom? 0 n
      return p :: (← decodePoints? r)
    else match r with
      | [] => none
      | b :: r =>
        if 0xC0 ≤ n ∧ n < 0xE0 then do
          let p ← pointFrom? 0x80 ((n - 0xC0) * 64 + (← tail? b))
          return p :: (← decodePoints? r)
        else match r with
          | [] => none
          | c :: r =>
            if 0xE0 ≤ n ∧ n < 0xF0 then do
              let p ← pointFrom? 0x800 (((n - 0xE0) * 64 + (← tail? b)) * 64 + (← tail? c))
              return p :: (← decodePoints? r)
            else match r with
              | [] => none
              | d :: r =>
                if 0xF0 ≤ n ∧ n < 0xF8 then do
                  let p ← pointFrom? 0x10000
                    ((((n - 0xF0) * 64 + (← tail? b)) * 64 + (← tail? c)) * 64 + (← tail? d))
                  return p :: (← decodePoints? r)
                else none

/-- The text of which a byte sequence is the UTF-8 form, if there is one. -/
def decode? (bytes : Bytes) : Option Text := (decodePoints? bytes).bind CodePoint.text?

/-! ## §2. Units of sixteen and thirty-two bits. -/

/-- Numbers of two bytes each; `big` says that the higher byte comes first. -/
def units16? (big : Bool) : Bytes → Option (List Nat)
  | [] => some []
  | [_] => none
  | a :: b :: r =>
    let (a, b) := if big then (a, b) else (b, a)
    (units16? big r).map ((a.toNat * 256 + b.toNat) :: ·)

/-- Is the number the first half of a surrogate pair? -/
def isHigh (n : Nat) : Bool := 0xD800 ≤ n && n < 0xDC00

/-- Is the number the second half of a surrogate pair? -/
def isLow (n : Nat) : Bool := 0xDC00 ≤ n && n < 0xE000

/-- The number of the character that a surrogate pair stands for. -/
def pairValue (high low : Nat) : Nat := 0x10000 + (high - 0xD800) * 0x400 + (low - 0xDC00)

/-- Code points from units of sixteen bits. -/
def joined? : List Nat → Option (List CodePoint)
  | [] => some []
  | [a] => (CodePoint.ofNat? a).map ([·])
  | a :: b :: r =>
    -- Half a pair stands for itself.
    if isHigh a && isLow b then do
      let p ← CodePoint.ofNat? (pairValue a b)
      return p :: (← joined? r)
    else do
      let p ← CodePoint.ofNat? a
      return p :: (← joined? (b :: r))

/-- Numbers from pairs of units; `big` says that the higher unit comes first. -/
def units32? (big : Bool) : List Nat → Option (List Nat)
  | [] => some []
  | [_] => none
  | a :: b :: r =>
    let (a, b) := if big then (a, b) else (b, a)
    (units32? big r).map ((a * 65536 + b) :: ·)

/-- Code points from UTF-16. -/
def decode16? (big : Bool) (bytes : Bytes) : Option (List CodePoint) :=
  (units16? big bytes).bind joined?

/-- Code points from UTF-32. -/
def decode32? (big : Bool) (bytes : Bytes) : Option (List CodePoint) := do
  let units ← units16? big bytes
  let numbers ← units32? big units
  numbers.mapM CodePoint.ofNat?

/-! ## §3. Telling the encodings apart. -/

/-- Code points of a document in one of the encodings. -/
def decodeDetected? (bytes : Bytes) : Option (List CodePoint) :=
  match bytes with
  -- A byte order mark, the longer ones first: a short one can begin a long one.
  | 0x00 :: 0x00 :: 0xFE :: 0xFF :: r => decode32? true r
  | 0xFF :: 0xFE :: 0x00 :: 0x00 :: r => decode32? false r
  | 0xFE :: 0xFF :: r => decode16? true r
  | 0xFF :: 0xFE :: r => decode16? false r
  | 0xEF :: 0xBB :: 0xBF :: r => decodePoints? r
  -- A document begins with ASCII characters, so the zeros are where the high bytes are.
  | a :: b :: c :: d :: _ =>
    if a = 0 then if b = 0 then decode32? true bytes else decode16? true bytes
    else if b = 0 then if c = 0 ∧ d = 0 then decode32? false bytes else decode16? false bytes
    else decodePoints? bytes
  | [a, b] =>
    if a = 0 then decode16? true bytes
    else if b = 0 then decode16? false bytes
    else decodePoints? bytes
  | _ => decodePoints? bytes

example : encode "aé€😀" = [97, 0xC3, 0xA9, 0xE2, 0x82, 0xAC, 0xF0, 0x9F, 0x98, 0x80] := by
  decide +kernel
example : decode? (encode "aé€😀") = some "aé€😀".toList := by decide +kernel
example : decode? [0xC0, 0x80] = none ∧ decode? [0xED, 0xA0, 0x80] = none := by decide +kernel

/-! ## §4. Bytes in sixty-four characters. -/

namespace Base64

/-- The characters, in the order of the values they stand for. -/
def alphabet : Text := "ABCDEFGHIJKLMNOPQRSTUVWXYZabcdefghijklmnopqrstuvwxyz0123456789+/"

/-- The character that stands for a value below sixty-four. -/
def char (n : Nat) : Char := alphabet[n]?.getD '='

/-- The characters for up to three bytes. -/
def group (a b c : Nat) : Text :=
  [char (a / 4), char (a % 4 * 16 + b / 16), char (b % 16 * 4 + c / 64), char (c % 64)]

/-- Bytes in sixty-four characters. -/
def encode : Bytes → Text
  | a :: b :: c :: r => group a.toNat b.toNat c.toNat ++ encode r
  | [a, b] => (group a.toNat b.toNat 0).take 3 ++ ['=']
  | [a] => (group a.toNat 0 0).take 2 ++ ['=', '=']
  | [] => []

example : encode (Text.encode "Man!") = "TWFuIQ==".toList := by decide

end Base64
end Text
end Repin
