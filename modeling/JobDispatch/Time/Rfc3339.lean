import JobDispatch.Text.Blank
import JobDispatch.Text.Digits
import JobDispatch.Time.Calendar
import JobDispatch.Time.Timestamp

/-!
# Times as text

Times are written in UTC as RFC 3339 has them, with three, six or nine digits after the second
when they are needed, and with a sign on years outside 0 to 9999. Reading is more lenient: parts
may have fewer digits, blanks may stand before them, any offset may follow, and a second `60`
stands for a leap second. An instant keeps a leap second apart from the second after it, so that it
is written back as it was read.
-/

namespace JobDispatch

/-- A point of UTC: whole seconds from the start of 1970, and nanoseconds. From 10⁹ on, the
nanoseconds lie in a leap second that follows `second`. -/
structure Instant where
  second : Int
  fraction : Nat
deriving DecidableEq

namespace Instant

/-! ### Writing -/

def yearText (year : Int) : String :=
  if 0 ≤ year ∧ year ≤ 9999 then Text.padded 4 year.toNat
  else (if year < 0 then "-" else "+") ++ Text.padded 4 year.natAbs

def fractionText (nanos : Nat) : String :=
  if nanos = 0 then ""
  else if nanos % 1000000 = 0 then "." ++ Text.padded 3 (nanos / 1000000)
  else if nanos % 1000 = 0 then "." ++ Text.padded 6 (nanos / 1000)
  else "." ++ Text.padded 9 nanos

def dateText (t : Instant) : String :=
  let d := Date.ofDayNumber (t.second.fdiv 86400)
  yearText d.year ++ "-" ++ Text.padded 2 d.month ++ "-" ++ Text.padded 2 d.day

def clockText (t : Instant) : String :=
  let secondOfDay := (t.second.fmod 86400).toNat
  let leap := t.fraction / 1000000000
  Text.padded 2 (secondOfDay / 3600) ++ ":" ++ Text.padded 2 (secondOfDay / 60 % 60) ++ ":" ++
    Text.padded 2 (secondOfDay % 60 + leap) ++ fractionText (t.fraction % 1000000000)

/-- The written form, as in `2023-11-14T22:13:20.500Z`. -/
def text (t : Instant) : String := t.dateText ++ "T" ++ t.clockText ++ "Z"

/-- The form in running text, as in `2023-11-14 22:13:20.500 UTC`. -/
def proseText (t : Instant) : String := t.dateText ++ " " ++ t.clockText ++ " UTC"

/-! ### Reading -/

/-- A number of at most `width` digits after blanks. -/
def readField? (width : Nat) (cs : List Char) : Option (Nat × List Char) :=
  let cs := Text.skipBlank cs
  let digits := (cs.take width).takeWhile Text.isDigit
  if digits = [] then none else some (Text.ofDigits digits, cs.drop digits.length)

/-- A year. With a sign it may have any number of digits, else at most four. -/
def readYear? (cs : List Char) : Option (Int × List Char) :=
  match Text.skipBlank cs with
  | '-' :: rest =>
    let (digits, rest) := Text.spanDigits rest
    if digits = [] then none else some (-(Text.ofDigits digits : Int), rest)
  | '+' :: rest =>
    let (digits, rest) := Text.spanDigits rest
    if digits = [] then none else some (Text.ofDigits digits, rest)
  | rest => (readField? 4 rest).map fun r => ((r.1 : Int), r.2)

def readMark? (mark : Char) (cs : List Char) : Option (List Char) :=
  match Text.skipBlank cs with
  | c :: rest => if c = mark then some rest else none
  | [] => none

/-- The nanoseconds after a point; digits after the ninth are dropped. -/
def readFraction? (cs : List Char) : Option (Nat × List Char) :=
  match cs with
  | '.' :: rest =>
    let (digits, rest) := Text.spanDigits rest
    if digits = [] then none
    else some (Text.ofDigits ((digits.take 9).rightpad 9 '0'), rest)
  | _ => some (0, cs)

/-- The seconds by which local time is ahead of UTC. -/
def readOffset? (cs : List Char) : Option (Int × List Char) :=
  match cs with
  | [] => none
  | c :: rest =>
    if c = 'Z' ∨ c = 'z' then some (0, rest)
    else if (c = 'U' ∨ c = 'u') ∧ (rest.take 2).map Char.toUpper = ['T', 'C'] then
      some (0, rest.drop 2)
    else if c = '+' ∨ c = '-' ∨ c = '\u2212' then
      match rest with
      | h1 :: h2 :: rest =>
        match rest.dropWhile fun c => c = ':' || Text.isBlank c with
        | m1 :: m2 :: rest =>
          let digits := [h1, h2, m1, m2]
          if digits.all Text.isDigit ∧ Text.digitValue m1 < 6 then
            let seconds := Text.ofDigits [h1, h2] * 3600 + Text.ofDigits [m1, m2] * 60
            if seconds < 86400 then some (if c = '+' then (seconds : Int) else -seconds, rest)
            else none
          else none
        | _ => none
      | _ => none
    else none

def yearInRange (year : Int) : Bool := -262143 ≤ year && year ≤ 262142

/-- The instant of a local date and time of day, `ahead` seconds ahead of UTC. -/
def ofLocal? (date : Date) (hour minute second nanos : Nat) (ahead : Int) : Option Instant :=
  if yearInRange date.year && date.valid && hour < 24 && minute < 60 && second ≤ 60 then
    let (second, fraction) := if second = 60 then (59, nanos + 1000000000) else (second, nanos)
    let whole := date.dayNumber * 86400 + (hour * 3600 + minute * 60 + second : Nat) - ahead
    if Timestamp.firstNanos ≤ whole * 1000000000 ∧ whole * 1000000000 ≤ Timestamp.lastNanos then
      some ⟨whole, fraction⟩
    else none
  else none

/-- Reads a whole text as a date, a `T` or a space, a time of day and an offset. -/
def parse? (input : String) : Option Instant := do
  let (year, cs) ← readYear? input.toList
  let (month, cs) ← readField? 2 (← readMark? '-' cs)
  let (day, cs) ← readField? 2 (← readMark? '-' cs)
  let cs ← match cs with
    | c :: rest => if c = 'T' ∨ c = 't' ∨ c = ' ' then some rest else none
    | [] => none
  let (hour, cs) ← readField? 2 cs
  let (minute, cs) ← readField? 2 (← readMark? ':' cs)
  let (second, cs) ← readField? 2 (← readMark? ':' cs)
  let (nanos, cs) ← readFraction? cs
  let (ahead, cs) ← readOffset? (Text.skipBlank cs)
  if Text.skipBlank cs = [] then ofLocal? ⟨year, month, day⟩ hour minute second nanos ahead
  else none

end Instant

def Timestamp.instant (t : Timestamp) : Instant :=
  ⟨t.nanos.fdiv 1000000000, (t.nanos.fmod 1000000000).toNat⟩

def Timestamp.text (t : Timestamp) : String := t.instant.text

def Timestamp.proseText (t : Timestamp) : String := t.instant.proseText

end JobDispatch
