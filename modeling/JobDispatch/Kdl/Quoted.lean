import JobDispatch.Kdl.Lexeme

/-!
# Strings

A string stands between quotes, on one line or over several, and with hash signs around the quotes
it has no escapes. Three quotes and the end of a line open a string over several lines, whose
closing line holds the indentation that all its lines share. Three quotes with anything else after
them open a string on one line: an empty one, or with hash signs one that starts with two quotes.
-/

namespace JobDispatch.Kdl

/-! ### Escapes -/

def escapeOf? : Char → Option Char
  | '"' => some '"'
  | '\\' => some '\\'
  | 'b' => some '\x08'
  | 'f' => some '\x0c'
  | 'n' => some '\n'
  | 'r' => some '\r'
  | 's' => some ' '
  | 't' => some '\t'
  | _ => none

def readCodePoint : Reader Char := fun cs =>
  match cs with
  | '\x7b' :: rest =>
    let digits := rest.takeWhile fun c => (Text.hexValue? c).isSome
    let value := digits.foldl (fun n c => 16 * n + (Text.hexValue? c).getD 0) 0
    match rest.drop digits.length with
    | '\x7d' :: rest =>
      if 1 ≤ digits.length ∧ digits.length ≤ 6 ∧ value.isValidChar then
        some (Char.ofNat value, rest)
      else none
    | _ => none
  | _ => none

def isSpaceOrNewline (c : Char) : Bool := isSpace c || isNewline c

/-- What a backslash stands for: one character, or nothing if it swallows spaces. -/
def readEscape : Reader (Option Char) := fun cs =>
  match cs with
  | 'u' :: rest => (readCodePoint rest).map fun (c, rest) => (some c, rest)
  | c :: rest =>
    if isSpaceOrNewline c then some (none, rest.dropWhile isSpaceOrNewline)
    else (escapeOf? c).map fun e => (some e, rest)
  | [] => none

/-! ### Pieces and lines -/

/-- A character of a string, as it stands in the text or from an escape. Only the line ends and
spaces that stand in the text shape its lines. -/
inductive Piece
  | plain (c : Char)
  | escaped (c : Char)
deriving DecidableEq

namespace Piece

def char : Piece → Char
  | plain c | escaped c => c

/-- The end of a line, however it is written. -/
def lineEnd : Piece := plain '\n'

def isPlainSpace : Piece → Bool
  | plain c => isSpace c
  | escaped _ => false

def text (pieces : List Piece) : String := String.ofList (pieces.map char)

end Piece

/-- The lines of a string; there is one more of them than there are line ends. -/
def splitLines : List Piece → List (List Piece)
  | [] => [[]]
  | piece :: rest =>
    if piece = .lineEnd then [] :: splitLines rest
    else
      match splitLines rest with
      | [] => [[piece]]
      | line :: lines => (piece :: line) :: lines

/-- A line without the indentation of the closing line; blank lines become empty. -/
def unindent? (indent line : List Piece) : Option (List Piece) :=
  if line.all Piece.isPlainSpace then some []
  else if indent.isPrefixOf line then some (line.drop indent.length)
  else none

/-- The lines before the closing one without the indentation, which is all that the closing line
may hold. -/
def dedent? (lines : List (List Piece)) : Option (List Piece) :=
  let indent := (lines.getLast?).getD []
  if indent.all Piece.isPlainSpace then
    (lines.dropLast.mapM (unindent? indent)).map (List.intercalate [Piece.lineEnd])
  else none

/-- What opens a string over several lines, after its first quote. -/
def dropLinesMark? : List Char → Option (List Char)
  | '"' :: '"' :: rest => dropNewline? rest
  | _ => none

def closesString (quotes hashes : Nat) (cs : List Char) : Bool :=
  (List.replicate quotes '"' ++ List.replicate hashes '#').isPrefixOf cs

/-! ### Strings with escapes -/

def readPiecesUpTo (quotes : Nat) : Nat → Reader (List Piece)
  | 0, _ => none
  | n + 1, cs =>
    if closesString quotes 0 cs then some ([], cs.drop quotes)
    else
      match cs with
      | [] => none
      | '\\' :: rest =>
        (readEscape rest).bind fun (c?, rest) =>
          (readPiecesUpTo quotes n rest).map fun (pieces, rest) =>
            ((c?.map Piece.escaped).toList ++ pieces, rest)
      | c :: rest =>
        match dropNewline? cs with
        | some rest =>
          (readPiecesUpTo quotes n rest).map fun (pieces, rest) => (.lineEnd :: pieces, rest)
        | none =>
          if isForbidden c then none
          else (readPiecesUpTo quotes n rest).map fun (pieces, rest) => (.plain c :: pieces, rest)

/-- The pieces of a string. Each takes a character at least, so the length of the text bounds their
number. -/
def readPieces (quotes : Nat) : Reader (List Piece) := fun cs =>
  readPiecesUpTo quotes (cs.length + 1) cs

def readQuoted : Reader String := fun cs =>
  match dropLinesMark? cs with
  | some lines =>
    (readPieces 3 lines).bind fun (pieces, rest) =>
      (dedent? (splitLines pieces)).map fun pieces => (Piece.text pieces, rest)
  | none =>
    (readPieces 1 cs).bind fun (pieces, rest) =>
      if Piece.lineEnd ∈ pieces then none else some (Piece.text pieces, rest)

/-! ### Strings without escapes -/

/-- The characters up to the mark that closes a string, of which `read` holds those before,
backwards. -/
def readUntilClose (quotes hashes : Nat) : List Char → Reader (List Char)
  | _, [] => none
  | read, c :: rest =>
    if closesString quotes hashes (c :: rest) then
      some (read.reverse, (c :: rest).drop (quotes + hashes))
    else if isForbidden c then none
    else readUntilClose quotes hashes (c :: read) rest

/-- Characters as pieces, with a carriage return and a line feed as one line end. -/
def plainPieces : List Char → List Piece
  | '\r' :: '\n' :: rest => .lineEnd :: plainPieces rest
  | c :: rest => (if isNewline c then .lineEnd else .plain c) :: plainPieces rest
  | [] => []

def readRawBody (hashes : Nat) : Reader String := fun cs =>
  match dropLinesMark? cs with
  | some lines =>
    (readUntilClose 3 hashes [] lines).bind fun (raw, rest) =>
      (dedent? (splitLines (plainPieces raw))).map fun pieces => (Piece.text pieces, rest)
  | none =>
    (readUntilClose 1 hashes [] cs).bind fun (raw, rest) =>
      if raw.any isNewline then none else some (String.ofList raw, rest)

/-- A string without escapes. It is not a lone quote, which on one line would look like the opening
of a string over several. -/
def readRaw (hashes : Nat) : Reader String := fun cs =>
  (readRawBody hashes cs).filter fun (text, _) => text != "\""

def readString : Reader String := fun cs =>
  match cs with
  | '"' :: rest => readQuoted rest
  | '#' :: _ =>
    let hashes := (cs.takeWhile (· = '#')).length
    match cs.drop hashes with
    | '"' :: rest => readRaw hashes rest
    | _ => none
  | _ => readName cs

end JobDispatch.Kdl
