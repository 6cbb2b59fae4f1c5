import JobDispatch.Kdl.Document
import JobDispatch.Kdl.Quoted

/-!
# Values

Numbers, keywords and strings as values. A whole number may be written in four bases; of a number
with a fraction or an exponent only the form is checked.
-/

namespace JobDispatch.Kdl

/-! ### Numbers -/

/-- Digits of a base with underscores between or after them. -/
def readDigits (base : Nat) : Reader (List Char) := fun cs =>
  let inBase (c : Char) : Bool := (Text.hexValue? c).any (· < base)
  match cs with
  | c :: _ =>
    if inBase c then
      let run := cs.takeWhile fun c => inBase c || c = '_'
      some (run.filter inBase, cs.drop run.length)
    else none
  | [] => none

def ofBase (base : Nat) (digits : List Char) : Nat :=
  digits.foldl (fun n c => base * n + (Text.hexValue? c).getD 0) 0

/-- A run of digits is limited to 127 bits, wherever in a number it stands. -/
def digitLimit : Nat := 1 <<< 127

def readRun (base : Nat) : Reader Nat := fun cs =>
  (readDigits base cs).bind fun (digits, rest) =>
    if ofBase base digits < digitLimit then some (ofBase base digits, rest) else none

def dropSign : List Char → List Char
  | '+' :: rest => rest
  | '-' :: rest => rest
  | cs => cs

/-- The fraction of a number, if a point follows. Tells whether it does. -/
def readFraction : Reader Bool := fun cs =>
  match cs with
  | '.' :: rest => (readRun 10 rest).map fun (_, rest) => (true, rest)
  | _ => some (false, cs)

def readExponent : Reader Bool := fun cs =>
  match cs with
  | e :: rest =>
    if e = 'e' ∨ e = 'E' then (readRun 10 (dropSign rest)).map fun (_, rest) => (true, rest)
    else some (false, cs)
  | [] => some (false, cs)

def baseOf? : Char → Option Nat
  | 'x' | 'X' => some 16
  | 'o' | 'O' => some 8
  | 'b' | 'B' => some 2
  | _ => none

/-- The base that a number starts with, and its digits. -/
def dropBase : List Char → Nat × List Char
  | '0' :: mark :: rest =>
    match baseOf? mark with
    | some base => (base, rest)
    | none => (10, '0' :: mark :: rest)
  | cs => (10, cs)

def readUnsigned (negative : Bool) : Reader Value := fun cs =>
  let (base, cs) := dropBase cs
  (readRun base cs).bind fun (n, rest) =>
    let whole := Value.int (if negative then -(n : Int) else n)
    if base ≠ 10 then some (whole, rest)
    else
      (readFraction rest).bind fun (hasFraction, rest) =>
        (readExponent rest).map fun (hasExponent, rest) =>
          (if hasFraction || hasExponent then .real else whole, rest)

def readNumber : Reader Value := fun cs =>
  readUnsigned (cs.head? == some '-') (dropSign cs)

/-! ### Keywords -/

def keywords : List (String × Value) :=
  [("true", .bool true), ("false", .bool false), ("null", .null), ("inf", .real), ("-inf", .real),
    ("nan", .real)]

/-- A keyword after its hash sign. It ends with its last letter, whatever comes next. -/
def readKeyword : Reader Value := fun cs =>
  (keywords.find? fun k => k.1.toList.isPrefixOf cs).map fun k => (k.2, cs.drop k.1.length)

def readBareValue : Reader Value := fun cs =>
  if startsLikeNumber cs then readNumber cs
  else
    match readString cs with
    | some (s, rest) => some (.string s, rest)
    | none =>
      match cs with
      | '#' :: rest => readKeyword rest
      | _ => none

end JobDispatch.Kdl
