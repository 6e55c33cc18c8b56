/-
  Repin.Url.Basic
  ───────────────
  **ADDRESSES.**

  An address names a scheme, an authority, that is a host with what belongs to it,
  a path, a query and a fragment, each of which may be missing:

      scheme://user@host:7/path?query#fragment

  Its parts are held as they are written, with everything percent-encoded that the
  part cannot hold.  `under` appends the path and the query of one address to those
  of another one.
-/
import Repin.Text.Encoding
import Repin.Text.Numeral

namespace Repin

/-- An address, taken apart; a scheme, user or host that is missing is empty. -/
structure Url where
  scheme : Text
  user : Text
  host : Text
  port : Option Int
  path : Text
  query : Option Text
  fragment : Option Text
  deriving DecidableEq, Repr

namespace Url

/-! ## §1. Characters. -/

/-- A control character of ASCII. -/
def isControl (c : Char) : Bool := c.toNat < 0x20 || c.toNat = 0x7F

/-- A byte behind a percent sign. -/
def percent (b : UInt8) : Text := '%' :: (Text.padded 16 2 b.toNat).map Char.toUpper

/-- Is the character visible ASCII and none of the `reserved` ones? -/
def isKept (reserved : Text) (c : Char) : Bool :=
  0x21 ≤ c.toNat && c.toNat ≤ 0x7E && !reserved.contains c

/-- A text with the characters encoded that are not visible ASCII or `reserved`. -/
def encoded (reserved s : Text) : Text :=
  s.flatMap (fun c => if isKept reserved c then [c] else (Text.encodeChar c).flatMap percent)

/-- The bytes that a text stands for, each percent sign with two digits for one byte. -/
def decoded : Text → Bytes
  | '%' :: a :: b :: r =>
    match Text.digitValue? a, Text.digitValue? b with
    | some x, some y => UInt8.ofNat (16 * x + y) :: decoded r
    | _, _ => Text.encodeChar '%' ++ decoded (a :: b :: r)
  | c :: r => Text.encodeChar c ++ decoded r
  | [] => []

/-! ## §2. Paths. -/

/-- Segments without single dots and with double dots taken back as far as there
is something to take back behind the first segment. -/
def resolved (segments : List Text) : List Text :=
  segments.foldl step []
where
  step (done : List Text) (s : Text) : List Text :=
    if s = ['.'] then done
    else if s = ['.', '.'] then
      if done = [] ∨ done = [[]] then done else done.dropLast
    else done ++ [s]

/-- A path with its dot segments resolved. -/
def resolvedPath (s : Text) : Text := ['/'].intercalate (resolved (s.splitOn '/'))

/-- Does the address name a user, a host or a port? -/
def hasAuthority (u : Url) : Bool := !u.user.isEmpty || !u.host.isEmpty || u.port.isSome

/-- Does the address name a scheme or an authority? -/
def isAbsolute (u : Url) : Bool := !u.scheme.isEmpty || u.hasAuthority

/-- The address with another path, whose dot segments are resolved if it is absolute. -/
def withPath (u : Url) (path : Text) : Url :=
  { u with path := if u.isAbsolute then resolvedPath path else path }

/-! ## §3. Appending. -/

/-- The path, a slash if it is empty, and the query behind it. -/
def target (u : Url) : Text :=
  (if u.path = [] then ['/'] else u.path)
    ++ (match u.query with
      | some q => '?' :: q
      | none => [])

/-- The address with another path and query. -/
def withTarget (u : Url) (s : Text) : Url :=
  let (path, query) := Text.cut '?' s
  { u.withPath path with query }

/-- The text with a slash at its end. -/
def slashed (s : Text) : Text := if s.getLast? = some '/' then s else s ++ ['/']

/-- The address `u` with the path and the query of `v` appended. -/
def under (u v : Url) : Url :=
  u.withTarget (slashed u.target ++ v.target.dropWhile (· = '/'))

/-! ## §4. Writing. -/

/-- The user, the host and the port. -/
def authority (u : Url) : Text :=
  (if u.user = [] then [] else u.user ++ ['@'])
    ++ (if u.host.contains ':' then '[' :: u.host ++ [']'] else u.host)
    ++ (match u.port with
      | some n => ':' :: Text.integer n
      | none => [])

/-- The address as text. -/
def text (u : Url) : Text :=
  (if u.scheme = [] then [] else u.scheme ++ [':'])
    ++ (if u.authority = [] then [] else '/' :: '/' :: u.authority)
    ++ u.path
    ++ (match u.query with
      | some q => '?' :: q
      | none => [])
    ++ (match u.fragment with
      | some f => '#' :: f
      | none => [])

/-- The credentials that the user part of an address holds, if there are any: a
name, and behind a colon a password. -/
def credentials? (u : Url) : Option Text :=
  let (name, password) := Text.cut ':' u.user
  let password := password.getD []
  if name = [] ∧ password = [] then none
  else some ("Basic " ++ Text.Base64.encode (decoded name ++ Text.encode [':'] ++ decoded password))

end Url
end Repin
