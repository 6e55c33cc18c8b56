/-
  Repin.Toml.Moment
  ─────────────────
  **DATES AND TIMES.**

  A date is `1979-05-27`, a time `07:32:00.5` with seconds and their fraction
  left out or not, and a date-time joins the two by a `T` or a space and may end
  in a distance from universal time: `Z` or `-07:00`.  Only days that the
  calendar has and times before midnight are read.  A fraction is cut off behind
  the microseconds.
-/
import Repin.Text.Numeral

namespace Repin.Toml

/-- A day of the calendar. -/
structure Date where
  year : Nat
  month : Nat
  day : Nat
  deriving DecidableEq, Repr

/-- A time of the day. -/
structure Time where
  hour : Nat
  minute : Nat
  second : Nat
  micro : Nat
  deriving DecidableEq, Repr

/-- A date, a time, or both with the distance from universal time in minutes. -/
inductive Moment where
  | date (d : Date)
  | time (t : Time)
  | dateTime (d : Date) (t : Time) (offset : Option Int)
  deriving DecidableEq, Repr

/-! ## §1. Reading. -/

/-- The days of a month. -/
def daysIn (year month : Nat) : Nat :=
  if month = 2 then
    if year % 4 = 0 ∧ (year % 100 ≠ 0 ∨ year % 400 = 0) then 29 else 28
  else if [4, 6, 9, 11].contains month then 30
  else 31

/-- Is there such a day? -/
def Date.isValid (d : Date) : Bool :=
  1 ≤ d.year && d.year ≤ 9999 && 1 ≤ d.month && d.month ≤ 12
    && 1 ≤ d.day && d.day ≤ daysIn d.year d.month

/-- A number of two digits, and what follows it. -/
def twoDigits? : Text → Option (Nat × Text)
  | a :: b :: r => (Text.value? [a, b]).map (fun n => (n, r))
  | _ => none

/-- A date, and what follows it. -/
def date? (s : Text) : Option (Date × Text) := do
  let year ← Text.value? (s.takeWhile Text.isDigit)
  let (month, r) ← twoDigits? (← Text.behind? ['-'] (s.dropWhile Text.isDigit))
  let (day, r) ← twoDigits? (← Text.behind? ['-'] r)
  let d : Date := { year, month, day }
  if d.isValid then return (d, r) else none

/-- The microseconds behind the seconds, and what follows them. -/
def fraction? : Text → Option (Nat × Text)
  | '.' :: r =>
    let ds := r.takeWhile Text.isDigit
    if ds.isEmpty then none
    -- Filled up with zeros, and cut off behind the sixth digit.
    else (Text.value? ((ds ++ List.replicate 6 '0').take 6)).map
      (fun n => (n, r.dropWhile Text.isDigit))
  | s => some (0, s)

/-- A time, and what follows it. -/
def time? (s : Text) : Option (Time × Text) := do
  let (hour, r) ← twoDigits? s
  let (minute, r) ← twoDigits? (← Text.behind? [':'] r)
  let (second, micro, r) ← seconds? r
  if hour < 24 ∧ minute < 60 ∧ second < 60 then return ({ hour, minute, second, micro }, r)
  else none
where
  /-- Seconds and microseconds, if a colon follows. -/
  seconds? : Text → Option (Nat × Nat × Text)
    | ':' :: r => do
      let (second, r) ← twoDigits? r
      let (micro, r) ← fraction? r
      return (second, micro, r)
    | r => some (0, 0, r)

/-- The distance from universal time that a text stands for, if it is not empty. -/
def offset? : Text → Option (Option Int)
  | [] => some none
  | ['Z'] => some (some 0)
  | ['z'] => some (some 0)
  | c :: r => do
    let (hour, r) ← twoDigits? r
    let (minute, r) ← twoDigits? (← Text.behind? [':'] r)
    if r.isEmpty ∧ hour < 24 ∧ minute < 60 then
      if c = '+' then return some (hour * 60 + minute : Nat)
      else if c = '-' then return some (-(hour * 60 + minute : Nat))
      else none
    else none

/-- Does the text stand for a date, with nothing behind it? -/
def isDate (s : Text) : Bool := (date? s).any (fun p => p.2.isEmpty)

/-- The moment that a text stands for. -/
def moment? (s : Text) : Option Moment :=
  match date? s with
  | some (d, []) => some (.date d)
  -- Behind a date stands a time or nothing.
  | some (d, c :: r) =>
    if c = 'T' ∨ c = 't' ∨ c = ' ' then do
      let (t, r) ← time? r
      return .dateTime d t (← offset? r)
    else none
  | none =>
    match time? s with
    | some (t, []) => some (.time t)
    | _ => none

/-! ## §2. Writing. -/

/-- A date with four digits for its year. -/
def Date.text (d : Date) : Text :=
  Text.padded 10 4 d.year ++ '-' :: Text.padded 10 2 d.month ++ '-' :: Text.padded 10 2 d.day

/-- A time; microseconds are left out when there are none. -/
def Time.text (t : Time) : Text :=
  Text.padded 10 2 t.hour ++ ':' :: Text.padded 10 2 t.minute ++ ':' :: Text.padded 10 2 t.second
    ++ (if t.micro = 0 then [] else '.' :: Text.padded 10 6 t.micro)

/-- A distance from universal time, in hours and minutes. -/
def offsetText (n : Int) : Text :=
  (if n < 0 then '-' else '+') :: Text.padded 10 2 (n.natAbs / 60)
    ++ ':' :: Text.padded 10 2 (n.natAbs % 60)

/-- A moment, date and time apart by a space. -/
def Moment.text : Moment → Text
  | .date d => d.text
  | .time t => t.text
  | .dateTime d t offset =>
    d.text ++ ' ' :: t.text ++ (match offset with | some n => offsetText n | none => [])

/-- The numbers of a moment with commas between them; seconds and microseconds
are left out from the end when they are zero. -/
def Moment.fields (m : Moment) : Text :=
  let numbers := match m with
    | .date d => ofDate d
    | .time t => ofTime t
    | .dateTime d t _ => ofDate d ++ ofTime t
  (", " : Text).intercalate (numbers.map Text.digits)
where
  ofDate (d : Date) : List Nat := [d.year, d.month, d.day]
  ofTime (t : Time) : List Nat :=
    [t.hour, t.minute]
      ++ (if t.micro ≠ 0 then [t.second, t.micro] else if t.second ≠ 0 then [t.second] else [])

example : (moment? "1979-05-27 07:32:00Z").map Moment.text
    = some "1979-05-27 07:32:00+00:00".toList := by decide +kernel
example : (moment? "07:32:00.999").map Moment.text = some "07:32:00.999000".toList := by
  decide +kernel
example : moment? "1979-13-45" = none ∧ moment? "1979-02-29" = none := by decide +kernel

end Repin.Toml
