import JobDispatch.Text.Blank
import JobDispatch.Text.Digits

/-!
# Spans of time

A span is a length of time in nanoseconds. Its written form is a whole number of one unit, `ms`,
`s`, `m` or `h`. Reading allows blanks around both parts and refuses numbers of milliseconds that
do not fit in 64 bits; writing takes the largest unit that divides the whole milliseconds of the
span and drops what is below a millisecond.
-/

namespace JobDispatch

structure Span where
  nanos : Nat
deriving DecidableEq, Inhabited

inductive SpanUnit
  | hour
  | minute
  | second
  | milli
deriving DecidableEq

namespace SpanUnit

def millis : SpanUnit → Nat
  | hour => 3600000
  | minute => 60000
  | second => 1000
  | milli => 1

def text : SpanUnit → String
  | hour => "h"
  | minute => "m"
  | second => "s"
  | milli => "ms"

def all : List SpanUnit := [hour, minute, second, milli]

def ofChars? (cs : List Char) : Option SpanUnit := all.find? fun u => u.text.toList == cs

end SpanUnit

namespace Span

def ofMillis (n : Nat) : Span := ⟨n * 1000000⟩

def ofSeconds (n : Nat) : Span := ⟨n * 1000000000⟩

/-- The whole milliseconds of a span. -/
def millis (s : Span) : Nat := s.nanos / 1000000

/-- Written spans stay below this number of milliseconds. -/
def millisBound : Nat := UInt64.size

/-- The largest unit that divides a number of milliseconds. -/
def unitOf (millis : Nat) : SpanUnit :=
  (SpanUnit.all.find? fun u => millis % u.millis = 0).getD .milli

/-- A span in its written form; the empty span is `0s`. -/
def text (s : Span) : String :=
  if s.millis = 0 then "0s"
  else
    let unit := unitOf s.millis
    toString (s.millis / unit.millis) ++ unit.text

def dropTrailingBlank (cs : List Char) : List Char := (Text.skipBlank cs.reverse).reverse

/-- Reads a written span: blanks, digits, blanks, unit, blanks. -/
def parse? (input : String) : Option Span :=
  let (digits, rest) := Text.spanDigits (Text.skipBlank input.toList)
  if digits = [] then none
  else
    match SpanUnit.ofChars? (dropTrailingBlank (Text.skipBlank rest)) with
    | none => none
    | some unit =>
      let millis := Text.ofDigits digits * unit.millis
      if millis < millisBound then some (ofMillis millis) else none

/-! ### The form used in log fields -/

/-- A decimal fraction of `width` places, without the zeros at its end. -/
def fraction (width n : Nat) : String :=
  let digits := (Text.padded width n).toList.reverse.dropWhile (· = '0')
  if digits = [] then "" else "." ++ String.ofList digits.reverse

/-- A span in the largest of the units `s`, `ms`, `µs`, `ns` that it reaches, with as many decimal
places as it needs. -/
def logText (s : Span) : String :=
  if 1000000000 ≤ s.nanos then
    toString (s.nanos / 1000000000) ++ fraction 9 (s.nanos % 1000000000) ++ "s"
  else if 1000000 ≤ s.nanos then
    toString (s.nanos / 1000000) ++ fraction 6 (s.nanos % 1000000) ++ "ms"
  else if 1000 ≤ s.nanos then
    toString (s.nanos / 1000) ++ fraction 3 (s.nanos % 1000) ++ "µs"
  else toString s.nanos ++ "ns"

end Span

end JobDispatch
