/-!
# Configuration documents as trees

A document is a list of nodes. A node has a name, arguments and properties in one list, and
possibly a block of children; a node without a block differs from one with an empty block.
-/

namespace JobDispatch.Kdl

inductive Value
  | string (s : String)
  | int (n : Int)
  /-- A number with a fraction or an exponent, or one of the named numbers. -/
  | real
  | bool (b : Bool)
  | null
deriving DecidableEq

/-- A property if it has a name, an argument otherwise. -/
structure Entry where
  name? : Option String
  value : Value
deriving DecidableEq

structure Node where
  name : String
  entries : List Entry
  children? : Option (List Node)

abbrev Document := List Node

namespace Node

def firstArgument? (node : Node) : Option Value :=
  (node.entries.find? fun entry => entry.name?.isNone).map Entry.value

/-- The nodes in the block of children, none if there is no block. -/
def children (node : Node) : List Node := node.children?.getD []

end Node

namespace Value

def string? : Value → Option String
  | string s => some s
  | _ => none

def int? : Value → Option Int
  | int n => some n
  | _ => none

def bool? : Value → Option Bool
  | bool b => some b
  | _ => none

end Value

end JobDispatch.Kdl
