import Symtab.Numeral
import Symtab.Toml.Reader

/-!
# Dates and times

A moment is a calendar date, a time of day, or both, and both together may have an offset. Days
respect the length of their month.
-/

namespace Symtab.Toml

/-- A day of the calendar. -/
structure Date where
  year : Nat
  month : Nat
  day : Nat
  deriving DecidableEq, Repr

/-- A time of day; second 60 is a leap second. -/
structure ClockTime where
  hour : Nat
  minute : Nat
  second : Nat
  fraction : List Char
  deriving DecidableEq, Repr

/-- A date, a time, or both. -/
inductive Moment where
  | date (date : Date)
  | time (time : ClockTime)
  /-- A time of a day, with its offset from universal time in minutes if that is known. -/
  | dateTime (date : Date) (time : ClockTime) (offset : Option Int)
  deriving DecidableEq, Repr

namespace Moment

/-- Reads a number of exactly `width` digits between `low` and `high`. -/
def field (width low high : Nat) : Reader Nat := fun text =>
  let digits := text.take width
  let number := Numeral.ofDigits 10 digits
  if digits.length = width ∧ digits.all Char.isDigit ∧ low ≤ number ∧ number ≤ high then
    some (number, text.drop width)
  else
    none

/-- The number of days of a month. -/
def daysIn (year month : Nat) : Nat :=
  if month = 2 then
    if year % 4 = 0 ∧ (year % 100 ≠ 0 ∨ year % 400 = 0) then 29 else 28
  else if month ∈ [4, 6, 9, 11] then 30
  else 31

/-- Reads a date that exists in the calendar. -/
def readDate : Reader Date := fun text => do
  let (year, rest) ← field 4 0 9999 text
  let (_, rest) ← Reader.exactly ['-'] rest
  let (month, rest) ← field 2 1 12 rest
  let (_, rest) ← Reader.exactly ['-'] rest
  let (day, rest) ← field 2 1 (daysIn year month) rest
  some (⟨year, month, day⟩, rest)

/-- Reads the digits behind the decimal point of a second. -/
def fraction : Reader (List Char)
  | '.' :: rest =>
    match rest.takeWhile Char.isDigit with
    | [] => none
    | digits => some (digits, rest.dropWhile Char.isDigit)
  | _ => none

/-- Reads hours and minutes. -/
def hourMinute : Reader (Nat × Nat) := fun text => do
  let (hour, rest) ← field 2 0 23 text
  let (_, rest) ← Reader.exactly [':'] rest
  let (minute, rest) ← field 2 0 59 rest
  some ((hour, minute), rest)

/-- Reads a time of day, with the seconds. -/
def readTime : Reader ClockTime := fun text => do
  let ((hour, minute), rest) ← hourMinute text
  let (_, rest) ← Reader.exactly [':'] rest
  let (second, rest) ← field 2 0 60 rest
  match fraction rest with
  | some (digits, rest) => some (⟨hour, minute, second, digits⟩, rest)
  | none => some (⟨hour, minute, second, []⟩, rest)

/-- Reads an offset from universal time in minutes. -/
def readOffset : Reader Int
  | 'Z' :: rest | 'z' :: rest => some (0, rest)
  | '+' :: rest => Reader.map (fun (hour, minute) => 60 * (hour : Int) + minute) hourMinute rest
  | '-' :: rest => Reader.map (fun (hour, minute) => -(60 * (hour : Int) + minute)) hourMinute rest
  | _ => none

/-- Reads the time that may follow a date, after a `T` or a space. -/
def timeOfDate : Reader ClockTime
  | 'T' :: rest | 't' :: rest | ' ' :: rest => readTime rest
  | _ => none

/-- Reads a moment that starts with a date. -/
def dated : Reader Moment := fun text => do
  let (day, rest) ← readDate text
  match timeOfDate rest with
  | none => some (.date day, rest)
  | some (clock, rest) =>
    match readOffset rest with
    | some (offset, last) => some (.dateTime day clock (some offset), last)
    | none => some (.dateTime day clock none, rest)

/-- Reads a moment of any form. -/
def read : Reader Moment :=
  Reader.orElse dated (Reader.map Moment.time readTime)

end Moment

end Symtab.Toml
