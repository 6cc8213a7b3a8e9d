import PropertyGraph.Name
import PropertyGraph.Properties

/-!
The records of a graph. As members of a collection, two records count as one when their handles
agree.
-/

namespace PropertyGraph

structure Node where
  id : NodeId
  labels : LabelSet
  properties : Properties
  deriving DecidableEq

structure Edge where
  id : EdgeId
  source : NodeId
  target : NodeId
  type : EdgeType
  properties : Properties
  deriving DecidableEq

namespace Node

def sameHandle (a b : Node) : Bool := a.id == b.id

def hasLabel (node : Node) (label : Label) : Bool := node.labels.contains label

def hasAllLabels (node : Node) (labels : List Label) : Bool := labels.all node.hasLabel

def property? (node : Node) (key : String) : Option PropertyValue := node.properties[key]?

end Node

namespace Edge

def sameHandle (a b : Edge) : Bool := a.id == b.id

def property? (edge : Edge) (key : String) : Option PropertyValue := edge.properties[key]?

def isSelfLoop (edge : Edge) : Bool := edge.source == edge.target

end Edge

end PropertyGraph
