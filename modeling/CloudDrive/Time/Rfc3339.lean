import CloudDrive.Time.Instant
import CloudDrive.Text.WhiteSpace

/-!
# Instants as RFC 3339 texts

Instants are written in UTC with a `Z`. A leap second is written as the 60th of its minute, or, if the
minute is not over, as the second after it; only the 60th is read as a leap second. Reading is
relaxed: white space may stand before each number and separator, numbers may have fewer digits, a
blank may stand for the `T`, and a year may have a sign; the offset from UTC has to be given.

* `text`: the written form. * `parse?`: the instant of a text.
-/

namespace CloudDrive.Instant

open Text (isWhiteSpace)

/-! ## Writing -/

/-- A number in decimal, with zeros in front up to `width` digits. -/
def padded (width n : Nat) : List Char :=
  List.replicate (width - (Nat.toDigits 10 n).length) '0' ++ Nat.toDigits 10 n

/-- A year: four digits, and a sign in front if they do not suffice. -/
def yearChars (year : Int) : List Char :=
  if 0 ≤ year ∧ year ≤ 9999 then padded 4 year.toNat
  else (if year < 0 then '-' else '+') :: padded 4 year.natAbs

/-- A day as year, month and day. -/
def dateChars (d : Date) : List Char :=
  yearChars d.year ++ '-' :: padded 2 d.month ++ '-' :: padded 2 d.day

/-- The fraction of a second: nothing, or the fewest of 3, 6 or 9 digits that are exact. -/
def fractionChars (nano : Nat) : List Char :=
  if nano = 0 then []
  else if nano % 1000000 = 0 then '.' :: padded 3 (nano / 1000000)
  else if nano % 1000 = 0 then '.' :: padded 6 (nano / 1000)
  else '.' :: padded 9 nano

/-- The second of the minute that is written; a leap second is written like the one after. -/
def secondOfMinute (t : Instant) : Nat := t.second % 60 + t.nano / 1000000000

/-- The characters of the written form. -/
def chars (t : Instant) : List Char :=
  dateChars t.date ++ 'T' :: padded 2 (t.second / 3600) ++ ':' :: padded 2 (t.second / 60 % 60) ++
    ':' :: padded 2 t.secondOfMinute ++ fractionChars (t.nano % 1000000000) ++ ['Z']

/-- The written form. -/
def text (t : Instant) : String := String.ofList t.chars

/-- Day and time of day to the minute, for people. -/
def minuteText (t : Instant) : String :=
  String.ofList (dateChars t.date ++ ' ' :: padded 2 (t.second / 3600) ++
    ':' :: padded 2 (t.second / 60 % 60))

/-! ## Reading -/

/-- The characters after any white space. -/
def skipSpace (cs : List Char) : List Char := cs.dropWhile isWhiteSpace

/-- A number of one to `width` digits at the front. -/
def scanNumber (width : Nat) (cs : List Char) : Option (Nat × List Char) :=
  let digits := (cs.take width).takeWhile Char.isDigit
  if digits.isEmpty then none
  else some (Nat.ofDigitChars 10 digits 0, cs.drop digits.length)

/-- The separator `c` at the front, after any white space. -/
def scanMark (c : Char) (cs : List Char) : Option (List Char) :=
  match skipSpace cs with
  | d :: rest => if d = c then some rest else none
  | [] => none

/-- A year at the front: four digits at most, or any number of digits after a sign. -/
def scanYear (cs : List Char) : Option (Int × List Char) :=
  match skipSpace cs with
  | '-' :: rest => (scanNumber rest.length rest).map fun (n, rest) => (-(n : Int), rest)
  | '+' :: rest => (scanNumber rest.length rest).map fun (n, rest) => ((n : Int), rest)
  | rest => (scanNumber 4 rest).map fun (n, rest) => ((n : Int), rest)

/-- A number of at most two digits at the front, after any white space. -/
def scanTwo (cs : List Char) : Option (Nat × List Char) := scanNumber 2 (skipSpace cs)

/-- A day at the front. -/
def scanDate (cs : List Char) : Option (Date × List Char) := do
  let (year, cs) ← scanYear cs
  let cs ← scanMark '-' cs
  let (month, cs) ← scanTwo cs
  let cs ← scanMark '-' cs
  let (day, cs) ← scanTwo cs
  return (← Date.ofCivil? year month day, cs)

/-- The nanoseconds of a fraction at the front, if one stands there; digits after the ninth count
for nothing. -/
def scanFraction : List Char → Option (Nat × List Char)
  | '.' :: rest =>
    let digits := rest.takeWhile Char.isDigit
    let kept := digits.take 9
    if digits.isEmpty then none
    else
      some (Nat.ofDigitChars 10 (kept ++ List.replicate (9 - kept.length) '0') 0,
        rest.drop digits.length)
  | cs => some (0, cs)

/-- The second of the day and the nanoseconds of a time at the front. -/
def scanTime (cs : List Char) : Option ((Nat × Nat) × List Char) := do
  let (hour, cs) ← scanTwo cs
  let cs ← scanMark ':' cs
  let (minute, cs) ← scanTwo cs
  let cs ← scanMark ':' cs
  let (second, cs) ← scanTwo cs
  let (nano, cs) ← scanFraction cs
  if hour < 24 ∧ minute < 60 ∧ second ≤ 60 then
    let start := hour * 3600 + minute * 60
    if second = 60 then return ((start + 59, nano + 1000000000), cs)
    else return ((start + second, nano), cs)
  else
    none

/-- Two digits, the first of them below `bound`. -/
def scanTwoExactly (bound : Nat) : List Char → Option (Nat × List Char)
  | a :: b :: rest =>
    if a.isDigit ∧ b.isDigit ∧ a.toNat - '0'.toNat < bound then
      some (Nat.ofDigitChars 10 [a, b] 0, rest)
    else
      none
  | _ => none

/-- Hours and minutes of an offset, in seconds. -/
def scanHoursMinutes (cs : List Char) : Option (Nat × List Char) := do
  let (hours, cs) ← scanTwoExactly 10 cs
  let (minutes, cs) ← scanTwoExactly 6 (cs.dropWhile fun c => c == ':' || isWhiteSpace c)
  return (hours * 3600 + minutes * 60, cs)

/-- The offset from UTC at the front, in seconds. -/
def scanOffset (cs : List Char) : Option (Int × List Char) :=
  match cs with
  | [] => none
  | c :: rest =>
    if (cs.take 3).map Char.toLower = ['u', 't', 'c'] then some (0, cs.drop 3)
    else if c = 'Z' ∨ c = 'z' then some (0, rest)
    else if c = '+' then (scanHoursMinutes rest).map fun (n, rest) => ((n : Int), rest)
    else if c = '-' ∨ c = '\u2212' then
      (scanHoursMinutes rest).map fun (n, rest) => (-(n : Int), rest)
    else none

/-- The instant at which clocks that are ahead of UTC by `offset` seconds show the given time. -/
def ofLocal? (date : Date) (second nano : Nat) (offset : Int) : Option Instant :=
  let utc : Int := second - offset
  if offset.natAbs ≥ 86400 then none
  else if utc < 0 then ofParts? date.previous (utc + 86400).toNat nano
  else if 86400 ≤ utc then ofParts? date.next (utc - 86400).toNat nano
  else ofParts? date utc.toNat nano

/-- The years that can be told. -/
def isKnownYear (year : Int) : Bool := -262143 ≤ year && year ≤ 262142

/-- The instant of a text. -/
def parse? (s : String) : Option Instant := do
  let (date, cs) ← scanDate s.toList
  let mark :: cs := cs | none
  if mark ≠ 'T' ∧ mark ≠ 't' ∧ mark ≠ ' ' then
    none
  else
    let ((second, nano), cs) ← scanTime cs
    let (offset, cs) ← scanOffset (skipSpace cs)
    let instant ← ofLocal? date second nano offset
    if (skipSpace cs).isEmpty && isKnownYear date.year && isKnownYear instant.date.year then
      return instant
    else
      none

end CloudDrive.Instant
