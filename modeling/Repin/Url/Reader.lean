/-
  Repin.Url.Reader
  ────────────────
  **READING ADDRESSES.**

  Nearly every text is an address: what it does not name is missing, what is not
  visible ASCII is encoded.  Only a control character, a numbered host that is no
  number, a port that is none and a path that would read as another part make a
  text unreadable.
-/
import Repin.Text.Class
import Repin.Url.Basic
import Repin.Url.Host

namespace Repin.Url

/-! ## §1. Parts of the text. -/

/-- A letter. -/
def isLetter (c : Char) : Bool := ('a' ≤ c && c ≤ 'z') || ('A' ≤ c && c ≤ 'Z')

/-- A character of a scheme. -/
def inScheme (c : Char) : Bool := isLetter c || Text.isDigit c || c = '+' || c = '.' || c = '-'

/-- The scheme, which begins with a letter, and what follows its colon. -/
def splitScheme (s : Text) : Text × Text :=
  let scheme := s.takeWhile inScheme
  match s.dropWhile inScheme with
  | ':' :: r => if scheme.head?.all isLetter then (scheme, r) else ([], s)
  | _ => ([], s)

/-- The authority, which stands behind two slashes, and what follows it. -/
def splitAuthority (s : Text) : Text × Text :=
  match Text.behind? "//" s with
  | some r => r.span (fun c => c ≠ '/' && c ≠ '?' && c ≠ '#')
  | none => ([], s)

/-- The user, which stands before the last at sign, and what follows it. -/
def splitUser (s : Text) : Text × Text :=
  let host := (s.reverse.takeWhile (· ≠ '@')).reverse
  (s.take (s.length - host.length - 1), host)

/-- The host, which may stand in brackets, and the port behind a colon. -/
def splitHost (s : Text) : Text × Text :=
  let bracketed := (s.reverse.dropWhile (· ≠ ']')).reverse
  let host := if s.head? = some '[' ∧ bracketed ≠ [] then bracketed else s.takeWhile (· ≠ ':')
  match s.drop host.length with
  | ':' :: port => (host, port)
  | port => (host, port)

/-! ## §2. Hosts and ports. -/

/-- The host that a text names: a number, in brackets if it is a hexadecimal one,
or a name, which is written in small letters. -/
def host? (s : Text) : Option Text :=
  if looksQuad s then
    if isQuad s then some s else none
  else if s.head? = some '[' ∧ s.getLast? = some ']' then
    let inner := s.tail.dropLast
    if isZoned inner then some inner else none
  else some (encoded "#/:<>?@[]^" (Text.lowered s))

/-- The port that a scheme has by itself. -/
def defaultPort? (scheme : Text) : Option Int :=
  if scheme = "http" ∨ scheme = "ws" then some 80
  else if scheme = "https" ∨ scheme = "wss" then some 443
  else if scheme = "ftp" then some 21
  else none

/-- The port that a text names; none if it is empty or names the one that the
scheme has anyway. -/
def port? (scheme s : Text) : Option (Option Int) :=
  if s = [] then some none
  else (Text.integer? s).map (fun n => if defaultPort? scheme = some n then none else some n)

/-! ## §3. The whole address. -/

/-- The address that a text stands for. -/
def read? (s : Text) : Option Url := do
  if s.any isControl then none
  let (scheme, r) := splitScheme s
  let scheme := Text.lowered scheme
  let (authority, r) := splitAuthority r
  let (user, r') := splitUser authority
  let (host, port) := splitHost r'
  let (r, fragment) := Text.cut '#' r
  let (path, query) := Text.cut '?' r
  let u : Url := {
    scheme
    user := encoded "\"#<>?\x60\x7b\x7d/;=@[\\]^|" user
    host := ← host? host
    port := ← port? scheme port
    path := []
    query := query.map (encoded "\"<>")
    fragment := fragment.map (encoded "\"<>\x60") }
  if !u.isAbsolute && ((Text.behind? "//" path).isSome || path.head? = some ':') then none
  let resolved := u.withPath path
  return { resolved with path := encoded "\"<>\x60\x7b\x7d" resolved.path }

example : (read? "HTTP://H:80/a b/../c?d#e").map text = some "http://h/c?d#e".toList := by
  decide +kernel
example : (read? "https://u:p@h:8443").bind credentials? = some "Basic dTpw".toList := by
  decide +kernel
example : read? "https://1.2.3.400" = none ∧ read? "https://h:x" = none ∧ read? "a\nb" = none := by
  decide +kernel

end Repin.Url
