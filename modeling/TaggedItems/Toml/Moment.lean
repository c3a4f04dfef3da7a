import TaggedItems.Decimal
/-!
# Dates and times

A moment is a date, a time of day or both, and if it is both then perhaps with the distance of the
clock from the common one. Its numbers have fixed counts of digits, and a moment that cannot be,
such as the thirtieth of February, is refused.
-/
namespace TaggedItems.Toml

/-- A number in decimal digits, with zeros in front if there are too few. -/
def padded (width n : Nat) : List Char :=
  let digits := Decimal.digits n
  List.replicate (width - digits.length) '0' ++ digits

/-- A number of exactly so many digits, and the rest. -/
def takeDigits? (width : Nat) (cs : List Char) : Option (Nat × List Char) :=
  if width ≤ cs.length then
    (Decimal.natural? (cs.take width)).map fun n => (n, cs.drop width)
  else none

/-- What is behind a mark that stands in front. -/
def behind? (mark : Char) : List Char → Option (List Char)
  | [] => none
  | c :: rest => if c = mark then some rest else none

/-! ## Dates -/

/-- A day of the calendar. -/
structure Date where
  year : Nat
  month : Nat
  day : Nat
  deriving DecidableEq

namespace Date

/-- Whether a year has a day more than others. -/
def isLeapYear (year : Nat) : Bool := year % 4 = 0 && (year % 100 ≠ 0 || year % 400 = 0)

/-- How many days a month has. -/
def daysIn (year month : Nat) : Nat :=
  if month = 2 then if isLeapYear year then 29 else 28
  else if month ∈ [4, 6, 9, 11] then 30
  else 31

/-- Whether there is such a day. -/
def exists? (date : Date) : Bool :=
  1 ≤ date.month && date.month ≤ 12 && 1 ≤ date.day && date.day ≤ daysIn date.year date.month

/-- A date and the rest. -/
def take? (cs : List Char) : Option (Date × List Char) := do
  let (year, behindYear) ← takeDigits? 4 cs
  let (month, behindMonth) ← takeDigits? 2 (← behind? '-' behindYear)
  let (day, final) ← takeDigits? 2 (← behind? '-' behindMonth)
  let date := Date.mk year month day
  if date.exists? then pure (date, final) else none

def chars (date : Date) : List Char :=
  padded 4 date.year ++ '-' :: padded 2 date.month ++ '-' :: padded 2 date.day

end Date

/-! ## Times of day -/

/-- A time of day. Its fraction of a second is a number of billionths. -/
structure Clock where
  hour : Nat
  minute : Nat
  second : Nat
  billionths : Nat
  deriving DecidableEq

namespace Clock

/-- The fraction that digits behind a point stand for. What is finer is left out. -/
def fraction? (digits : List Char) : Option Nat :=
  Decimal.natural? ((digits ++ List.replicate 9 '0').take 9)

/-- The fraction of a second behind a point, which has a digit at least. -/
def takeFraction? (cs : List Char) : Option (Nat × List Char) :=
  match behind? '.' cs with
  | none => some (0, cs)
  | some rest =>
    let digits := rest.takeWhile Char.isDigit
    if digits = [] then none
    else (fraction? digits).map fun n => (n, rest.dropWhile Char.isDigit)

/-- The seconds of a time and their fraction. Both are zero if they are left out. -/
def takeSeconds? (cs : List Char) : Option ((Nat × Nat) × List Char) :=
  match behind? ':' cs with
  | none => some ((0, 0), cs)
  | some rest => do
    let (second, behindSecond) ← takeDigits? 2 rest
    let (billionths, final) ← takeFraction? behindSecond
    pure ((second, billionths), final)

/-- A time and the rest. A minute may have a leap second. -/
def take? (cs : List Char) : Option (Clock × List Char) := do
  let (hour, behindHour) ← takeDigits? 2 cs
  let (minute, behindMinute) ← takeDigits? 2 (← behind? ':' behindHour)
  let ((second, billionths), final) ← takeSeconds? behindMinute
  if hour ≤ 23 ∧ minute ≤ 59 ∧ second ≤ 60 then pure (⟨hour, minute, second, billionths⟩, final)
  else none

/-- The fraction without the zeros at its end, behind a point if anything is left of it. -/
def fractionChars (billionths : Nat) : List Char :=
  if billionths = 0 then []
  else '.' :: ((padded 9 billionths).reverse.dropWhile (· = '0')).reverse

def chars (clock : Clock) : List Char :=
  padded 2 clock.hour ++ ':' :: padded 2 clock.minute ++ ':' :: padded 2 clock.second
    ++ fractionChars clock.billionths

end Clock

/-! ## Distances from the common clock -/

/-- Which clock a time is told by: the common one, or one that is some minutes ahead of it. -/
inductive Offset where
  | common
  | ahead (minutes : Int)
  deriving DecidableEq

namespace Offset

/-- Hours and minutes. -/
def takeMinutes? (cs : List Char) : Option (Nat × List Char) := do
  let (hours, behindHours) ← takeDigits? 2 cs
  let (minutes, final) ← takeDigits? 2 (← behind? ':' behindHours)
  if hours ≤ 23 ∧ minutes ≤ 59 then pure (60 * hours + minutes, final) else none

/-- The clock, if one is given, and the rest. -/
def take? (cs : List Char) : Option (Option Offset × List Char) :=
  match cs with
  | 'Z' :: rest | 'z' :: rest => some (some .common, rest)
  | '+' :: rest => (takeMinutes? rest).map fun (n, final) => (some (.ahead n), final)
  | '-' :: rest => (takeMinutes? rest).map fun (n, final) => (some (.ahead (-n)), final)
  | _ => some (none, cs)

def chars : Offset → List Char
  | .common => ['Z']
  | .ahead minutes =>
    (if 0 ≤ minutes then '+' else '-') :: padded 2 (minutes.natAbs / 60)
      ++ ':' :: padded 2 (minutes.natAbs % 60)

end Offset

/-! ## Moments -/

/-- A date, a time of day, or both. -/
inductive Moment where
  | day (date : Date)
  | time (clock : Clock)
  | both (date : Date) (clock : Clock) (offset : Option Offset)
  deriving DecidableEq

namespace Moment

/-- A date with or without a time, and the rest. A letter or a blank may stand between them; if no
time follows a blank, then the blank is no part of the moment. -/
def takeDated? (cs : List Char) : Option (Moment × List Char) := do
  let (date, rest) ← Date.take? cs
  let timed (behind : List Char) : Option (Moment × List Char) := do
    let (clock, behindClock) ← Clock.take? behind
    let (offset, final) ← Offset.take? behindClock
    pure (.both date clock offset, final)
  match rest with
  | 'T' :: behind | 't' :: behind => timed behind
  | ' ' :: behind => (timed behind).or (some (.day date, rest))
  | _ => some (.day date, rest)

/-- A moment and the rest. -/
def take? (cs : List Char) : Option (Moment × List Char) :=
  (takeDated? cs).or ((Clock.take? cs).map fun (clock, final) => (.time clock, final))

/-- A moment is written with all of its seconds, and with a capital between its parts. -/
def text (moment : Moment) : String :=
  String.ofList <|
    match moment with
    | .day date => date.chars
    | .time clock => clock.chars
    | .both date clock offset =>
      date.chars ++ 'T' :: clock.chars ++ (offset.map Offset.chars).getD []

end Moment
end TaggedItems.Toml
