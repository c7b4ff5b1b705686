/-!
# TOML dates and times

TOML writes dates and times as in RFC 3339: a date `1979-05-27`, a time `07:32:00` with an
optional fraction of a second, a date and a time joined by `T`, `t` or a space, and after such
a pair an optional offset `Z`, `z` or `±hh:mm`. A date alone or a time alone is local and has
no offset.

Each field has its fixed number of digits and its range: months `01`–`12`, days from `01` to
the length of the month in the Gregorian calendar, hours `00`–`23`, minutes `00`–`59` and
seconds `00`–`60`, a leap second included.
A fraction has at least one digit; digits beyond the ninth are dropped.
-/

namespace DbSchema

namespace Toml

structure Date where
  year : Nat
  month : Nat
  day : Nat
deriving DecidableEq, Repr

/-- A time of day; `nanos` holds the fraction of the second in nanoseconds. -/
structure Time where
  hour : Nat
  minute : Nat
  second : Nat
  nanos : Nat
deriving DecidableEq, Repr

inductive Offset where
  | utc
  /-- A shift by a number of minutes, negative west of UTC. -/
  | shift (minutes : Int)
deriving DecidableEq, Repr

/-- A date, a time, or both; only a date with a time may carry an offset. -/
structure Datetime where
  date : Option Date
  time : Option Time
  offset : Option Offset
deriving DecidableEq, Repr

def digitValue (c : Char) : Nat :=
  c.toNat - '0'.toNat

/-- Reads exactly `n` ASCII digits and gives the number they write. -/
def fixedDigits : Nat → List Char → Option (Nat × List Char)
  | 0, cs => some (0, cs)
  | n + 1, c :: r =>
    if c.isDigit then
      (fixedDigits n r).map fun (v, rest) => (digitValue c * 10 ^ n + v, rest)
    else none
  | _ + 1, [] => none

/-- Reads two digits whose number lies between `lowest` and `top`. -/
def boundedPair (lowest top : Nat) (cs : List Char) : Option (Nat × List Char) :=
  match fixedDigits 2 cs with
  | some (v, rest) => if lowest ≤ v ∧ v ≤ top then some (v, rest) else none
  | none => none

/-- Whether a year of the Gregorian calendar has a 29th of February: one divisible by 4 but
not by 100, or divisible by 400. -/
def isLeapYear (y : Nat) : Bool :=
  (y % 4 == 0 && y % 100 != 0) || y % 400 == 0

def daysInMonth (y m : Nat) : Nat :=
  if m = 2 then (if isLeapYear y then 29 else 28)
  else if m = 4 ∨ m = 6 ∨ m = 9 ∨ m = 11 then 30
  else 31

/-- Reads a full date `yyyy-mm-dd`. -/
def Date.read? (cs : List Char) : Option (Date × List Char) := do
  let (year, r) ← fixedDigits 4 cs
  let r ← match r with | '-' :: r => some r | _ => none
  let (month, r) ← boundedPair 1 12 r
  let r ← match r with | '-' :: r => some r | _ => none
  let (day, r) ← boundedPair 1 (daysInMonth year month) r
  return (⟨year, month, day⟩, r)

def spanDigits (cs : List Char) : List Char × List Char :=
  (cs.takeWhile Char.isDigit, cs.dropWhile Char.isDigit)

/-- The nanoseconds written by the digits of a fraction of a second: the first nine digits,
padded with zeros. -/
def nanosOf (ds : List Char) : Nat :=
  let ds := ds.take 9
  ds.foldl (fun v c => 10 * v + digitValue c) 0 * Nat.pow 10 (9 - ds.length)

/-- Reads a time `hh:mm:ss`, with an optional fraction `.d…`. -/
def Time.read? (cs : List Char) : Option (Time × List Char) := do
  let (hour, r) ← boundedPair 0 23 cs
  let r ← match r with | ':' :: r => some r | _ => none
  let (minute, r) ← boundedPair 0 59 r
  let r ← match r with | ':' :: r => some r | _ => none
  let (second, r) ← boundedPair 0 60 r
  match r with
  | '.' :: d :: r' =>
    if d.isDigit then
      let (more, rest) := spanDigits r'
      return (⟨hour, minute, second, nanosOf (d :: more)⟩, rest)
    else return (⟨hour, minute, second, 0⟩, r)
  | _ => return (⟨hour, minute, second, 0⟩, r)

/-- Reads an offset: `Z`, `z`, or a sign, hours and minutes. -/
def Offset.read? : List Char → Option (Offset × List Char)
  | 'Z' :: r => some (.utc, r)
  | 'z' :: r => some (.utc, r)
  | s :: r =>
    if s = '+' ∨ s = '-' then do
      let (h, r) ← boundedPair 0 23 r
      let r ← match r with | ':' :: r => some r | _ => none
      let (m, r) ← boundedPair 0 59 r
      let minutes : Int := 60 * h + m
      return (.shift (if s = '-' then -minutes else minutes), r)
    else none
  | [] => none

/-- Whether a character may join a date to a time. -/
def isTimeDelimiter (c : Char) : Bool :=
  c == 'T' || c == 't' || c == ' '

/-- Reads a date with an optional time and offset, or a time alone. A date is followed by a
time only when a delimiter and a whole time follow it. -/
def Datetime.read? (cs : List Char) : Option (Datetime × List Char) :=
  match Date.read? cs with
  | some (d, rest) =>
    match rest with
    | c :: r =>
      match (if isTimeDelimiter c then Time.read? r else none) with
      | some (t, r') =>
        match Offset.read? r' with
        | some (o, r'') => some (⟨some d, some t, some o⟩, r'')
        | none => some (⟨some d, some t, none⟩, r')
      | none => some (⟨some d, none, none⟩, rest)
    | [] => some (⟨some d, none, none⟩, [])
  | none => (Time.read? cs).map fun (t, r) => (⟨none, some t, none⟩, r)

example : (Datetime.read? "1979-05-27T07:32:00.999999-07:00".toList).map (·.1) =
    some ⟨some ⟨1979, 5, 27⟩, some ⟨7, 32, 0, 999999000⟩, some (.shift (-420))⟩ := by
  decide +kernel

example : (Datetime.read? "1979-05-27 x".toList).map (·.2) = some " x".toList := by
  decide +kernel

example : Datetime.read? "1979-13-01".toList = none ∧ Datetime.read? "24:00:00".toList = none := by
  decide +kernel

example : (Datetime.read? "2000-02-29".toList).isSome ∧ Datetime.read? "1900-02-29".toList = none ∧
    Datetime.read? "1979-04-31".toList = none := by
  decide +kernel

end Toml

end DbSchema
