/-
  Repin.Http
  ──────────
  **REQUESTS AND REPLIES.**

  A reply is a status with a body, or no reply at all.  Only a status from 200 to
  299 is a success; any other is reported with its phrase, the URL and, for a
  redirect that names one, the new location.  Redirects are not followed.
-/
import Repin.Decimal.Double
import Repin.Text.Encoding
import Repin.Text.Numeral

namespace Repin

/-- A request for a document. -/
structure Request where
  url : Text
  /-- Which kind of document is accepted. -/
  accept : Text
  /-- The credentials, if there are any. -/
  authorization : Option Text
  /-- How many seconds the reply may take; without one, as many as it needs. -/
  timeout : Option Double
  deriving DecidableEq, Repr

/-- What comes back for a request. -/
inductive Reply where
  /-- A status, the location that a redirect names, and a body. -/
  | response (status : Nat) (location : Option Text) (body : Bytes)
  /-- No reply, and what is said about it. -/
  | failed (message : Text)
  deriving DecidableEq, Repr

namespace Http

/-! ## §1. Statuses. -/

/-- Is the status a success? -/
def isSuccess (status : Nat) : Bool := 200 ≤ status && status < 300

/-- The phrases of the statuses that have one. -/
def phrases : List (Nat × String) :=
  [(100, "Continue"), (101, "Switching Protocols"), (102, "Processing"), (103, "Early Hints"),
   (200, "OK"), (201, "Created"), (202, "Accepted"), (203, "Non-Authoritative Information"),
   (204, "No Content"), (205, "Reset Content"), (206, "Partial Content"), (207, "Multi-Status"),
   (208, "Already Reported"), (226, "IM Used"), (300, "Multiple Choices"),
   (301, "Moved Permanently"), (302, "Found"), (303, "See Other"), (304, "Not Modified"),
   (305, "Use Proxy"), (307, "Temporary Redirect"), (308, "Permanent Redirect"),
   (400, "Bad Request"), (401, "Unauthorized"), (402, "Payment Required"), (403, "Forbidden"),
   (404, "Not Found"), (405, "Method Not Allowed"), (406, "Not Acceptable"),
   (407, "Proxy Authentication Required"), (408, "Request Timeout"), (409, "Conflict"),
   (410, "Gone"), (411, "Length Required"), (412, "Precondition Failed"),
   (413, "Request Entity Too Large"), (414, "Request-URI Too Long"),
   (415, "Unsupported Media Type"), (416, "Requested Range Not Satisfiable"),
   (417, "Expectation Failed"), (418, "I'm a teapot"), (421, "Misdirected Request"),
   (422, "Unprocessable Entity"), (423, "Locked"), (424, "Failed Dependency"),
   (425, "Too Early"), (426, "Upgrade Required"), (428, "Precondition Required"),
   (429, "Too Many Requests"), (431, "Request Header Fields Too Large"),
   (451, "Unavailable For Legal Reasons"), (500, "Internal Server Error"),
   (501, "Not Implemented"), (502, "Bad Gateway"), (503, "Service Unavailable"),
   (504, "Gateway Timeout"), (505, "HTTP Version Not Supported"),
   (506, "Variant Also Negotiates"), (507, "Insufficient Storage"), (508, "Loop Detected"),
   (510, "Not Extended"), (511, "Network Authentication Required")]

/-- The phrase of a status, empty if it has none. -/
def phrase (status : Nat) : Text :=
  match phrases.find? (fun p => p.1 = status) with
  | some (_, s) => s
  | none => []

/-- The kind of a status that is no success. -/
def kind (status : Nat) : Text :=
  match status / 100 with
  | 1 => "Informational response"
  | 3 => "Redirect response"
  | 4 => "Client error"
  | 5 => "Server error"
  | _ => "Invalid status code"

/-- Does the status say that the document is elsewhere? -/
def isRedirect (status : Nat) : Bool := [301, 302, 303, 307, 308].contains status

/-! ## §2. Messages. -/

/-- What is said about a status that is no success. -/
def statusMessage (url : Text) (status : Nat) (location : Option Text) : Text :=
  kind status ++ " '" ++ Text.digits status ++ ' ' :: phrase status ++ "' for url '" ++ url ++ "'\n"
    ++ redirection
    ++ "For more information check: https://developer.mozilla.org/en-US/docs/Web/HTTP/Status/"
    ++ Text.digits status
where
  /-- The line that names the new location. -/
  redirection : Text :=
    match location with
    | some place => if isRedirect status then "Redirect location: '" ++ place ++ "'\n" else []
    | none => []

end Http
end Repin
