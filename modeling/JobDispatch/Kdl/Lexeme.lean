import JobDispatch.Text.Digits

/-!
# Characters, spaces and names

The characters of KDL 2 by their kinds, what may stand between the parts of a document, and names
without quotes. A reader takes the characters that are left and gives what it read with the
characters after it, or nothing if the text does not go on as it should.
-/

namespace JobDispatch.Kdl

/-- Takes a part off the front of a text. -/
abbrev Reader (α : Type) := List Char → Option (α × List Char)

/-! ### Characters -/

def inRanges (ranges : List (Nat × Nat)) (c : Char) : Bool :=
  ranges.any fun r => r.1 ≤ c.toNat && c.toNat ≤ r.2

/-- Spaces within a line. -/
def isSpace : Char → Bool :=
  inRanges [(0x09, 0x09), (0x20, 0x20), (0xA0, 0xA0), (0x1680, 0x1680), (0x2000, 0x200A),
    (0x202F, 0x202F), (0x205F, 0x205F), (0x3000, 0x3000)]

/-- Characters that end a line. -/
def isNewline : Char → Bool := inRanges [(0x0A, 0x0D), (0x85, 0x85), (0x2028, 0x2029)]

/-- Characters that names and strings may only have by escapes. -/
def isForbidden : Char → Bool :=
  inRanges [(0x00, 0x08), (0x0E, 0x1F), (0x200E, 0x200F), (0x202A, 0x202E),
    (0x2066, 0x2069), (0xFEFF, 0xFEFF)]

def isNameChar (c : Char) : Bool :=
  !isSpace c && !isNewline c && !isForbidden c &&
    !"\\/(){};[]\"#=".toList.contains c

/-! ### Spaces and comments -/

/-- Drops parts off the front as long as `drop` finds one, at most `n` of them. -/
def dropUpTo (drop : List Char → Option (List Char)) : Nat → List Char → List Char
  | 0, cs => cs
  | n + 1, cs =>
    match drop cs with
    | some rest => dropUpTo drop n rest
    | none => cs

/-- Drops parts off the front as long as `drop` finds one. A part has a character at least, so the
length of the text bounds their number. -/
def dropAll (drop : List Char → Option (List Char)) (cs : List Char) : List Char :=
  dropUpTo drop cs.length cs

/-- One end of a line; a carriage return takes the line feed after it along. -/
def dropNewline? : List Char → Option (List Char)
  | '\r' :: '\n' :: rest => some rest
  | c :: rest => if isNewline c then some rest else none
  | [] => none

/-- The rest of a comment that `depth` further marks close; comments nest. -/
def dropBlock? : Nat → List Char → Option (List Char)
  | 0, cs => some cs
  | _, [] => none
  | depth + 1, '*' :: '/' :: rest => dropBlock? depth rest
  | depth + 1, '/' :: '*' :: rest => dropBlock? (depth + 2) rest
  | depth + 1, _ :: rest => dropBlock? (depth + 1) rest
termination_by _ cs => cs.length

def dropLineComment? : List Char → Option (List Char)
  | '/' :: '/' :: rest =>
    let rest := rest.dropWhile fun c => !isNewline c
    some ((dropNewline? rest).getD rest)
  | _ => none

def dropSpace? : List Char → Option (List Char)
  | '/' :: '*' :: rest => dropBlock? 1 rest
  | c :: rest => if isSpace c then some rest else none
  | [] => none

def dropJoin? : List Char → Option (List Char)
  | '\\' :: rest =>
    match dropAll dropSpace? rest with
    | [] => some []
    | rest => (dropLineComment? rest).or (dropNewline? rest)
  | _ => none

/-- What may stand between the parts of a node. -/
def dropNodeSpace? (cs : List Char) : Option (List Char) := (dropSpace? cs).or (dropJoin? cs)

/-- What may stand between nodes. -/
def dropLineSpace? (cs : List Char) : Option (List Char) :=
  ((dropNodeSpace? cs).or (dropNewline? cs)).or (dropLineComment? cs)

def skipNodeSpace (cs : List Char) : List Char := dropAll dropNodeSpace? cs

def skipLineSpace (cs : List Char) : List Char := dropAll dropLineSpace? cs

/-! ### Names -/

/-- Words that are values only with a hash sign before them. A sign before one of them makes a name
of it. -/
def reservedNames : List String := ["true", "false", "null", "inf", "nan"]

/-- The text starts like a number: a digit after a sign and a point, each of which may be absent. -/
def startsLikeNumber (cs : List Char) : Bool :=
  let unsigned := match cs with
    | c :: rest => if c = '+' ∨ c = '-' then rest else cs
    | [] => []
  let body := match unsigned with
    | '.' :: rest => rest
    | _ => unsigned
  match body with
  | c :: _ => Text.isDigit c
  | [] => false

def readName : Reader String := fun cs =>
  let name := cs.takeWhile isNameChar
  if name = [] ∨ startsLikeNumber name ∨ String.ofList name ∈ reservedNames then none
  else some (String.ofList name, cs.drop name.length)

end JobDispatch.Kdl
