import Exonym.Text.Digits

/-!
# Dates and times in settings files

A moment is a date, a time of day, or both, and then possibly with the distance from universal time. No setting is
one, but a moment may stand where nobody asked for a value, and there it has to be one that exists.

Main statements:

* `Date.day_le`: a date that was read has a day of its month.
-/

namespace Exonym.Toml

/-- A number, with zeros before it up to the given width. -/
def padded (width n : Nat) : List Char :=
  let digits := (toString n).toList
  List.replicate (width - digits.length) '0' ++ digits

structure Date where
  year : Nat
  month : Nat
  day : Nat
  deriving DecidableEq, Repr, Inhabited

structure Clock where
  hour : Nat
  minute : Nat
  /-- Up to 60, for leap seconds. -/
  second : Nat
  /-- The digits of the fraction of a second, down to billionths, without zeros at the end. -/
  fraction : List Char
  deriving DecidableEq, Repr, Inhabited

/-- The distance from universal time. -/
inductive Offset where
  | none
  /-- Universal time itself. -/
  | universal
  /-- Minutes ahead of universal time. -/
  | ahead (minutes : Int)
  deriving DecidableEq, Repr, Inhabited

inductive Moment where
  | date (d : Date)
  | time (c : Clock)
  | dateTime (d : Date) (c : Clock) (o : Offset)
  deriving DecidableEq, Repr, Inhabited

namespace Moment

/-! ## Numbers of fixed width -/

/-- A number of so many digits. -/
def scanFixed (width : Nat) (s : List Char) : Option (Nat × List Char) :=
  let digits := s.take width
  if digits.length = width && digits.all Char.isDigit then some (Digits.number digits, s.drop width) else none

/-- A number of two digits between two others. -/
def scanPair (least most : Nat) (s : List Char) : Option (Nat × List Char) :=
  (scanFixed 2 s).filter fun (n, _) => least ≤ n && n ≤ most

/-- What follows a character that has to come next. -/
def after? (c : Char) : List Char → Option (List Char)
  | [] => none
  | d :: rest => if d = c then some rest else none

end Moment

namespace Date

def isLeap (year : Nat) : Bool :=
  year % 4 = 0 && (year % 100 ≠ 0 || year % 400 = 0)

def daysInMonth (year month : Nat) : Nat :=
  if month = 2 then if isLeap year then 29 else 28
  else if month = 4 || month = 6 || month = 9 || month = 11 then 30
  else 31

open Moment in
def scan (s : List Char) : Option (Date × List Char) := do
  let (year, s) ← scanFixed 4 s
  let (month, s) ← scanPair 1 12 (← after? '-' s)
  let (day, s) ← scanPair 1 (daysInMonth year month) (← after? '-' s)
  return (⟨year, month, day⟩, s)

def text (d : Date) : List Char :=
  padded 4 d.year ++ '-' :: padded 2 d.month ++ '-' :: padded 2 d.day

theorem day_le {s rest : List Char} {d : Date} (h : scan s = some (d, rest)) :
    1 ≤ d.day ∧ d.day ≤ daysInMonth d.year d.month := by
  simp only [scan, Option.bind_eq_bind, Option.bind_eq_some_iff, Prod.exists] at h
  obtain ⟨year, _, _, _, _, month, _, _, _, _, day, _, hd, hr⟩ := h
  cases hr
  simpa using (Option.filter_eq_some_iff.1 hd).2

end Date

namespace Clock

/-- The fraction of a second, if there is one. What is below a billionth is dropped. -/
def scanFraction (s : List Char) : List Char × List Char :=
  match s with
  | '.' :: rest =>
    match rest.span Char.isDigit with
    | ([], _) => ([], s)
    | (digits, rest) => (((digits.take 9).reverse.dropWhile (· = '0')).reverse, rest)
  | _ => ([], s)

open Moment in
def scan (s : List Char) : Option (Clock × List Char) := do
  let (hour, s) ← scanPair 0 23 s
  let (minute, s) ← scanPair 0 59 (← after? ':' s)
  let (second, s) ← scanPair 0 60 (← after? ':' s)
  let (fraction, s) := scanFraction s
  return (⟨hour, minute, second, fraction⟩, s)

def text (c : Clock) : List Char :=
  padded 2 c.hour ++ ':' :: padded 2 c.minute ++ ':' :: padded 2 c.second ++
    if c.fraction.isEmpty then [] else '.' :: c.fraction

end Clock

namespace Offset

open Moment in
/-- Hours and minutes. -/
def scanMinutes (s : List Char) : Option (Nat × List Char) := do
  let (hours, s) ← scanPair 0 23 s
  let (minutes, s) ← scanPair 0 59 (← after? ':' s)
  return (60 * hours + minutes, s)

/-- The offset at the front of a text, if there is one. -/
def scan (s : List Char) : Offset × List Char :=
  match s with
  | 'Z' :: rest => (.universal, rest)
  | 'z' :: rest => (.universal, rest)
  | '+' :: rest =>
    match scanMinutes rest with
    | some (n, rest) => (.ahead n, rest)
    | Option.none => (.none, s)
  | '-' :: rest =>
    match scanMinutes rest with
    | some (n, rest) => (.ahead (-n), rest)
    | Option.none => (.none, s)
  | _ => (.none, s)

def text : Offset → List Char
  | .none => []
  | .universal => ['Z']
  | .ahead minutes =>
    (if minutes < 0 then '-' else '+') :: padded 2 (minutes.natAbs / 60) ++ ':' :: padded 2 (minutes.natAbs % 60)

end Offset

namespace Moment

/-- A time after a date, behind the letter T or a blank. -/
def scanTime (s : List Char) : Option (Clock × List Char) :=
  match s with
  | 'T' :: rest => Clock.scan rest
  | 't' :: rest => Clock.scan rest
  | ' ' :: rest => Clock.scan rest
  | _ => none

/-- The moment at the front of a text, and what follows it. -/
def scan (s : List Char) : Option (Moment × List Char) :=
  match Date.scan s with
  | some (d, rest) =>
    match scanTime rest with
    | some (c, rest) =>
      let (o, rest) := Offset.scan rest
      some (.dateTime d c o, rest)
    | none => some (.date d, rest)
  | none => (Clock.scan s).map fun (c, rest) => (.time c, rest)

/-- A moment as it is written. -/
def text : Moment → List Char
  | .date d => d.text
  | .time c => c.text
  | .dateTime d c o => d.text ++ 'T' :: c.text ++ o.text

end Moment

end Exonym.Toml
