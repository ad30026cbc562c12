import AccessRules.Text.Blank

/-!
# Dates

Dates of the Gregorian calendar, extended to all years from -262143 to 262142. A date is written
as year, month and day with hyphens between them; a year of more or less than four digits, or
before year zero, has its sign. Reading takes a number of any spelling, skips blanks before each,
and stops at the first fault.
-/
namespace AccessRules

/-- Every fourth year has a leap day, but of the centuries only every fourth. -/
def isLeapYear (year : Int) : Bool := year % 4 == 0 && (year % 100 != 0 || year % 400 == 0)

/-- Days of a month; none for a number that is no month. -/
def daysInMonth (year : Int) : (month : Nat) → Nat
  | 1 | 3 | 5 | 7 | 8 | 10 | 12 => 31
  | 4 | 6 | 9 | 11 => 30
  | 2 => if isLeapYear year then 29 else 28
  | _ => 0

/-- The year, the month and the day are in range. -/
def IsDate (year : Int) (month day : Nat) : Prop :=
  -262143 ≤ year ∧ year ≤ 262142 ∧ 1 ≤ day ∧ day ≤ daysInMonth year month

instance (year : Int) (month day : Nat) : Decidable (IsDate year month day) :=
  inferInstanceAs (Decidable (_ ∧ _))

/-- A day of the calendar. -/
structure Date where
  /-- The year, zero before year one. -/
  year : Int
  /-- The month, from one. -/
  month : Nat
  /-- The day of the month, from one. -/
  day : Nat
  /-- The day exists. -/
  isDate : IsDate year month day
deriving DecidableEq

/-- Why text is no date. -/
inductive DateFault where
  /-- The text ends before the date does. -/
  | incomplete
  /-- A character cannot stand where it does. -/
  | invalid
  /-- A number is too large for its place, or the day does not exist. -/
  | outOfRange
  /-- Text follows the date. -/
  | trailing
deriving DecidableEq

/-- The message of text that is no date. -/
def DateFault.message : DateFault → String
  | incomplete => "premature end of input"
  | invalid => "input contains invalid characters"
  | outOfRange => "input is out of range"
  | trailing => "trailing input"

namespace Date

/-- The date with the given parts, if there is one. -/
def ofParts? (year : Int) (month day : Nat) : Option Date :=
  if isDate : IsDate year month day then some ⟨year, month, day, isDate⟩ else none

/-- Dates are ordered by year, month and day. -/
def order (left right : Date) : Ordering :=
  (compare left.year right.year).then
    ((compare left.month right.month).then (compare left.day right.day))

/-- The decimal form with zeros in front, so that it has at least `width` digits. -/
def padded (width number : Nat) : Text :=
  List.replicate (width - (Text.decimal number).length) '0' ++ Text.decimal number

/-- The written form of a year. -/
def renderYear (year : Int) : Text :=
  if 0 ≤ year ∧ year ≤ 9999 then padded 4 year.toNat
  else (if year < 0 then '-' else '+') :: padded 4 year.natAbs

/-- The written form of a date. -/
def render (date : Date) : Text :=
  renderYear date.year ++ '-' :: padded 2 date.month ++ '-' :: padded 2 date.day

/-- Reads the number at the front of the text, of at most `most` digits if a bound is given. It has
to be less than `2 ^ 63`. -/
def readNumber (most : Option Nat) (text : Text) : Except DateFault (Nat × Text) :=
  match text with
  | [] => .error .incomplete
  | c :: _ =>
    if !c.isDigit then .error .invalid
    else
      let run := text.takeWhile Char.isDigit
      let digits := match most with
        | some bound => run.take bound
        | none => run
      let value := Text.ofDigits digits
      if 0x8000000000000000 ≤ value then .error .outOfRange else .ok (value, text.drop digits.length)

/-- Reads a year of 32 bits, after any blanks. With a sign it may have any number of digits, else up
to four. -/
def readYear (text : Text) : Except DateFault (Int × Text) := do
  let (year, rest) ←
    match text.trimStart with
    | '-' :: digits => do
      let (value, rest) ← readNumber none digits
      pure (-(value : Int), rest)
    | '+' :: digits => do
      let (value, rest) ← readNumber none digits
      pure ((value : Int), rest)
    | digits => do
      let (value, rest) ← readNumber (some 4) digits
      pure ((value : Int), rest)
  if -0x80000000 ≤ year ∧ year < 0x80000000 then return (year, rest) else .error .outOfRange

/-- Reads a hyphen. -/
def readHyphen : Text → Except DateFault Text
  | [] => .error .incomplete
  | c :: rest => if c = '-' then .ok rest else .error .invalid

/-- Reads a number of one or two digits from one up to a bound, after any blanks. -/
def readPart (bound : Nat) (text : Text) : Except DateFault (Nat × Text) := do
  let (value, rest) ← readNumber (some 2) text.trimStart
  if 1 ≤ value ∧ value ≤ bound then return (value, rest) else .error .outOfRange

/-- Reads a date that is the whole text, blanks before its numbers apart. -/
def read (text : Text) : Except DateFault Date := do
  let (year, rest) ← readYear text
  let rest ← readHyphen rest
  let (month, rest) ← readPart 12 rest
  let rest ← readHyphen rest
  let (day, rest) ← readPart 31 rest
  match rest, ofParts? year month day with
  | _ :: _, _ => .error .trailing
  | [], none => .error .outOfRange
  | [], some date => return date

end Date

end AccessRules
