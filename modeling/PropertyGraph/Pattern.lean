import PropertyGraph.Binding
import PropertyGraph.Filter

/-!
Path patterns: a node pattern, then any number of edge patterns each with the node pattern that it
leads to. Flattened, nodes stand at the even positions and edges at the odd ones.
-/

namespace PropertyGraph

/-- How an edge is crossed, read from left to right. -/
inductive Direction where
  | outgoing
  | incoming
  | both
  deriving DecidableEq, Repr

def Direction.reversed : Direction → Direction
  | .outgoing => .incoming
  | .incoming => .outgoing
  | .both => .both

/-- How many edges a path may have: one at least, and no bound above when `max` is absent. -/
structure HopRange where
  min : Option Nat
  max : Option Nat
  deriving DecidableEq, Repr

namespace HopRange

def single : HopRange := ⟨some 1, some 1⟩

def unbounded : HopRange := ⟨none, none⟩

def minHops (r : HopRange) : Nat := Nat.max (r.min.getD 1) 1

def isSingleHop (r : HopRange) : Bool := r.minHops == 1 && r.max == some 1

def contains (r : HopRange) (hops : Nat) : Bool :=
  r.minHops ≤ hops && r.max.all (hops ≤ ·)

def canExtend (r : HopRange) (hops : Nat) : Bool := r.max.all (hops < ·)

end HopRange

structure NodePattern where
  name : Option String
  labels : List Label
  properties : Properties
  deriving DecidableEq

/-- Types and properties are asked of every edge of a path of several. -/
structure EdgePattern where
  name : Option String
  types : List EdgeType
  direction : Direction
  length : HopRange
  properties : Properties
  deriving DecidableEq

structure Segment where
  edge : EdgePattern
  node : NodePattern
  deriving DecidableEq

structure PathPattern where
  start : NodePattern
  segments : List Segment
  deriving DecidableEq

namespace NodePattern

def any : NodePattern := ⟨none, [], ∅⟩

def named (p : NodePattern) (name : String) : NodePattern := { p with name := some name }

def withLabel (p : NodePattern) (label : Label) : NodePattern :=
  { p with labels := p.labels ++ [label] }

def withProperty (p : NodePattern) (key : String) (value : PropertyValue) : NodePattern :=
  { p with properties := p.properties.insert key value }

def filter (p : NodePattern) : NodeFilter := .of p.labels p.properties

end NodePattern

namespace EdgePattern

def any (direction : Direction) : EdgePattern := ⟨none, [], direction, .single, ∅⟩

def named (p : EdgePattern) (name : String) : EdgePattern := { p with name := some name }

def withType (p : EdgePattern) (type : EdgeType) : EdgePattern :=
  { p with types := p.types ++ [type] }

def withProperty (p : EdgePattern) (key : String) (value : PropertyValue) : EdgePattern :=
  { p with properties := p.properties.insert key value }

def withLength (p : EdgePattern) (length : HopRange) : EdgePattern := { p with length }

def filter (p : EdgePattern) : EdgeFilter := .of p.types p.properties

end EdgePattern

inductive Element where
  | node (pattern : NodePattern)
  | edge (pattern : EdgePattern)
  deriving DecidableEq

namespace Element

def name : Element → Option String
  | .node pattern => pattern.name
  | .edge pattern => pattern.name

def isNode : Element → Bool
  | .node _ => true
  | .edge _ => false

def kind : Element → VariableKind
  | .node _ => .node
  | .edge _ => .edges

end Element

namespace PathPattern

def ofNode (start : NodePattern) : PathPattern := ⟨start, []⟩

def step (p : PathPattern) (edge : EdgePattern) (node : NodePattern) : PathPattern :=
  { p with segments := p.segments ++ [⟨edge, node⟩] }

def length (p : PathPattern) : Nat := 1 + 2 * p.segments.length

def element? (p : PathPattern) (position : Nat) : Option Element :=
  if position = 0 then some (.node p.start)
  else
    p.segments[(position - 1) / 2]?.map fun segment =>
      if position % 2 = 1 then .edge segment.edge else .node segment.node

def elements (p : PathPattern) : List Element :=
  .node p.start :: p.segments.flatMap fun segment => [.edge segment.edge, .node segment.node]

def names (p : PathPattern) : List String := (p.elements.filterMap Element.name).eraseDups

end PathPattern

end PropertyGraph
