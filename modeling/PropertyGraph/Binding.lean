import PropertyGraph.Container.InsertionMap
import PropertyGraph.Container.InsertionSet
import PropertyGraph.Name

namespace PropertyGraph

inductive VariableKind where
  | node
  | edges
  deriving DecidableEq, Repr

def VariableKind.text : VariableKind → String
  | .node => "node"
  | .edges => "edge sequence"

/-- A node, or the edges of a path in pattern order. -/
inductive BoundValue where
  | node (id : NodeId)
  | edges (ids : List EdgeId)
  deriving DecidableEq, Repr

namespace BoundValue

def kind : BoundValue → VariableKind
  | .node _ => .node
  | .edges _ => .edges

def node? : BoundValue → Option NodeId
  | .node id => some id
  | .edges _ => none

def edges? : BoundValue → Option (List EdgeId)
  | .node _ => none
  | .edges ids => some ids

def order : BoundValue → BoundValue → Ordering
  | .node a, .node b => compare a b
  | .node _, .edges _ => .lt
  | .edges _, .node _ => .gt
  | .edges a, .edges b => compare a b

end BoundValue

abbrev Bindings := InsertionMap String BoundValue

/-- The values that a variable of an enclosing scope may take. -/
inductive PatternSymbol where
  | nodes (ids : InsertionSet NodeId)
  | edges (sequences : InsertionSet (List EdgeId))

namespace PatternSymbol

def ofNodes (ids : List NodeId) : PatternSymbol := .nodes (.ofList ids)

def ofEdges (sequences : List (List EdgeId)) : PatternSymbol := .edges (.ofList sequences)

def single : BoundValue → PatternSymbol
  | .node id => ofNodes [id]
  | .edges ids => ofEdges [ids]

def kind : PatternSymbol → VariableKind
  | .nodes _ => .node
  | .edges _ => .edges

def size : PatternSymbol → Nat
  | .nodes ids => ids.size
  | .edges sequences => sequences.size

def isEmpty (symbol : PatternSymbol) : Bool := symbol.size == 0

def contains : PatternSymbol → BoundValue → Bool
  | .nodes ids, .node id => ids.contains id
  | .edges sequences, .edges ids => sequences.contains ids
  | _, _ => false

def sameMembers : PatternSymbol → PatternSymbol → Bool
  | .nodes a, .nodes b => a.sameItems b
  | .edges a, .edges b => a.sameItems b
  | _, _ => false

end PatternSymbol

abbrev Symbols := Std.ExtTreeMap String PatternSymbol

end PropertyGraph
