import JobDispatch.Kdl.Literal

/-!
# Reading a document

A node is a name with arguments, properties and a block of children. Nodes stand apart by a line
end, a semicolon or a comment. Parts after a slashdash are read like the others and left out. A
node left out counts as a space between nodes: no semicolon belongs to it, and another node may
follow on the same line. The readers that call each other count down a bound on their nesting,
which `Document.parse?` takes from the length of the text.
-/

namespace JobDispatch.Kdl

/-- The mark that takes the part after it out of the document. -/
def dropSlashdash? : List Char → Option (List Char)
  | '/' :: '-' :: rest => some (skipLineSpace rest)
  | _ => none

/-- A type in parentheses, which may be missing and has no bearing on the value. -/
def dropType? (cs : List Char) : Option (List Char) :=
  match cs with
  | '(' :: rest =>
    (readString (skipNodeSpace rest)).bind fun r =>
      match skipNodeSpace r.2 with
      | ')' :: rest => some (skipNodeSpace rest)
      | _ => none
  | _ => some cs

def readValue : Reader Value := fun cs => (dropType? cs).bind readBareValue

/-! ### Arguments and properties -/

/-- An argument or a property. A string is the name of a property if an equals sign follows. -/
def readPart : Reader Entry := fun cs =>
  match readString cs with
  | none => (readValue cs).map fun r => (⟨none, r.1⟩, r.2)
  | some (s, rest) =>
    match skipNodeSpace rest with
    | '=' :: after => (readValue (skipNodeSpace after)).map fun r => (⟨some s, r.1⟩, r.2)
    | _ => some (⟨none, .string s⟩, rest)

/-- An entry of a node: an argument, a property, or a slashdash with the entry that it takes out and
the entry after that, if there is one, which stands for all of it. So two slashdashes in a row take
two entries out. -/
def readEntry : Nat → Reader (Option Entry)
  | 0, _ => none
  | n + 1, cs =>
    let cs := skipNodeSpace cs
    match dropSlashdash? cs with
    | some part =>
      (readEntry n part).map fun (_, rest) => (readEntry n rest).getD (none, rest)
    | none => (readPart cs).map fun (entry, rest) => (some entry, rest)

def readEntriesUpTo : Nat → List Char → List Entry × List Char
  | 0, cs => ([], cs)
  | n + 1, cs =>
    let after := skipNodeSpace cs
    if after.length = cs.length then ([], cs)
    else
      match readEntry cs.length after with
      | some (kept?, rest) =>
        let (entries, rest) := readEntriesUpTo n rest
        (kept?.toList ++ entries, rest)
      | none => ([], cs)

/-- The entries of a node. Each takes a character at least, so the length of the text bounds their
number; so it does for the parts left out of one entry. -/
def readEntries (cs : List Char) : List Entry × List Char := readEntriesUpTo cs.length cs

/-! ### Nodes -/

def dropTerminator? : List Char → Option (List Char)
  | ';' :: rest => some rest
  | cs => (dropNewline? cs).or (dropLineComment? cs)

mutual

/-- The nodes at the front, with spaces and nodes left out around them. -/
def readNodes : Nat → Reader (List Node)
  | 0, _ => none
  | n + 1, cs =>
    let cs := skipHidden n cs
    match readNode n cs with
    | none => some ([], cs)
    | some (node, rest) =>
      match dropTerminator? rest with
      | some rest => (readNodes n rest).map fun (nodes, rest) => (node :: nodes, rest)
      | none => some ([node], skipHidden n rest)

/-- The text after spaces, line ends, comments and nodes left out. -/
def skipHidden : Nat → List Char → List Char
  | 0, cs => cs
  | n + 1, cs =>
    let cs := skipLineSpace cs
    match (dropSlashdash? cs).bind (readNode n) with
    | some (_, rest) => skipHidden n rest
    | none => cs

/-- A node with the spaces after it. Further blocks may only follow its block of children if they
are left out. -/
def readNode : Nat → Reader Node
  | 0, _ => none
  | n + 1, cs =>
    (dropType? cs).bind fun cs =>
      (readString cs).bind fun (name, rest) =>
        let (entries, rest) := readEntries rest
        (skipHiddenBlocks n true rest).bind fun rest =>
          match skipNodeSpace rest with
          | '\x7b' :: rest =>
            (readBlock n rest).bind fun (children, rest) =>
              (skipHiddenBlocks n false rest).map fun rest =>
                (⟨name, entries, some children⟩, skipNodeSpace rest)
          | rest => some (⟨name, entries, none⟩, rest)

/-- The text after blocks left out. Each needs a space before it if `spaced`. -/
def skipHiddenBlocks : Nat → Bool → List Char → Option (List Char)
  | 0, _, _ => none
  | n + 1, spaced, cs =>
    let after := skipNodeSpace cs
    if spaced && after.length = cs.length then some cs
    else
      match dropSlashdash? after with
      | some ('\x7b' :: rest) =>
        (readBlock n rest).bind fun (_, rest) => skipHiddenBlocks n spaced rest
      | _ => some cs

def readBlock : Nat → Reader (List Node)
  | 0, _ => none
  | n + 1, cs =>
    (readNodes n cs).bind fun (nodes, rest) =>
      match rest with
      | '\x7d' :: rest => some (nodes, rest)
      | _ => none

end

/-- The text after a byte order mark, which only the start of a document may have. -/
def dropMark : List Char → List Char
  | '\ufeff' :: rest => rest
  | cs => cs

/-- Reads a whole text. Of any three readers nested in each other one takes a character, so three
times the length of the text bounds their nesting. -/
def Document.parse? (text : String) : Option Document :=
  let cs := dropMark text.toList
  match readNodes (3 * cs.length + 4) cs with
  | some (nodes, []) => some nodes
  | _ => none

end JobDispatch.Kdl
