import JobDispatch.Text.Digits

/-!
# JSON values

The values that configurations and records are exchanged in. Whole numbers are kept apart from
other numbers, since a count may not be written as `1.0`. The members of an object keep their
order. Values are written over several lines, two blanks to a level.
-/

namespace JobDispatch

inductive Json
  | null
  | bool (b : Bool)
  | int (n : Int)
  /-- A number that is not written as a whole one. -/
  | real (literal : String)
  | str (s : String)
  | arr (items : List Json)
  | obj (members : List (String × Json))

namespace Json

instance : Inhabited Json := ⟨null⟩

def nat (n : Nat) : Json := .int n

def ofOption {α : Type} (encode : α → Json) : Option α → Json
  | none => .null
  | some a => encode a

/-- The member of a name; of several with one name the last counts. -/
def member? (name : String) : List (String × Json) → Option Json
  | [] => none
  | (k, v) :: rest =>
    match member? name rest with
    | some w => some w
    | none => if k = name then some v else none

/-! ### Written form -/

def escaped (c : Char) : List Char :=
  if c = '"' then ['\\', '"']
  else if c = '\\' then ['\\', '\\']
  else if c = '\n' then ['\\', 'n']
  else if c = '\r' then ['\\', 'r']
  else if c = '\t' then ['\\', 't']
  else if c = '\x08' then ['\\', 'b']
  else if c = '\x0c' then ['\\', 'f']
  else if c.toNat < 0x20 then
    ['\\', 'u', '0', '0', Text.hexDigit (c.toNat / 16), Text.hexDigit (c.toNat % 16)]
  else [c]

def quoted (s : String) : String := "\"" ++ String.ofList (s.toList.flatMap escaped) ++ "\""

/-- The start of a line at a level of nesting. -/
def newline (level : Nat) : String := "\n" ++ String.ofList (List.replicate (2 * level) ' ')

mutual

/-- The written form of a value whose first line is at `level`. -/
def render (level : Nat) : Json → String
  | .null => "null"
  | .bool b => if b then "true" else "false"
  | .int n => toString n
  | .real literal => literal
  | .str s => quoted s
  | .arr [] => "[]"
  | .arr (item :: items) =>
    "[" ++ newline (level + 1) ++ render (level + 1) item ++ renderItems (level + 1) items ++
      newline level ++ "]"
  | .obj [] => "\x7b\x7d"
  | .obj ((name, value) :: members) =>
    "\x7b" ++ newline (level + 1) ++ quoted name ++ ": " ++ render (level + 1) value ++
      renderMembers (level + 1) members ++ newline level ++ "\x7d"

def renderItems (level : Nat) : List Json → String
  | [] => ""
  | item :: items => "," ++ newline level ++ render level item ++ renderItems level items

def renderMembers (level : Nat) : List (String × Json) → String
  | [] => ""
  | (name, value) :: members =>
    "," ++ newline level ++ quoted name ++ ": " ++ render level value ++ renderMembers level members

end

def text (j : Json) : String := render 0 j

end Json

end JobDispatch
