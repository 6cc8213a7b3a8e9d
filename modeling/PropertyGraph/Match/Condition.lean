import PropertyGraph.Graph
import PropertyGraph.Match.Collector

namespace PropertyGraph

inductive Comparison where
  | less
  | lessOrEqual
  | greater
  | greaterOrEqual
  | equal
  | unequal
  deriving DecidableEq, Repr

def Comparison.holds : Comparison → Ordering → Bool
  | .less, o => o.isLT
  | .lessOrEqual, o => o.isLE
  | .greater, o => o.isGT
  | .greaterOrEqual, o => o.isGE
  | .equal, o => o == .eq
  | .unequal, o => o != .eq

structure Condition where
  name : String
  key : String
  comparison : Comparison
  value : PropertyValue

def unboundText (name : String) : String := name ++ " is not bound"

namespace Condition

/-- The property of a node, or of the first edge of a path. -/
def property? (g : Graph) (key : String) : BoundValue → Option PropertyValue
  | .node id => (g.node? id).bind (·.property? key)
  | .edges [] => none
  | .edges (id :: _) => (g.edge? id).bind (·.property? key)

/-- A property that is missing makes the condition false; a name without a value and a property of
another kind are errors. -/
def accepts? (c : Condition) (g : Graph) (bindings : Bindings) : Except String Bool :=
  match bindings.get? c.name with
  | none => .error (unboundText c.name)
  | some bound =>
      match property? g c.key bound with
      | none => .ok false
      | some actual =>
          match actual.compare? c.value with
          | .error e => .error e.message
          | .ok order => .ok (c.comparison.holds order)

end Condition

end PropertyGraph
