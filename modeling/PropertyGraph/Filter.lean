import PropertyGraph.Record

namespace PropertyGraph

/-- A node passes when it carries every label and holds every property; properties are tried in the
order of the list. -/
structure NodeFilter where
  labels : List Label
  properties : List (String × PropertyValue)
  deriving DecidableEq

/-- An edge passes when its type is one of `types`, any type if there are none, and it holds every
property. -/
structure EdgeFilter where
  types : List EdgeType
  properties : List (String × PropertyValue)
  deriving DecidableEq

namespace NodeFilter

/-- The filter of a pattern: its properties in the order of their names. -/
def of (labels : List Label) (properties : Properties) : NodeFilter := ⟨labels, properties.toList⟩

def isUnconstrained (filter : NodeFilter) : Bool :=
  filter.labels.isEmpty && filter.properties.isEmpty

def accepts? (filter : NodeFilter) (node : Node) : Except Incomparable Bool :=
  if node.hasAllLabels filter.labels then node.properties.satisfies? filter.properties
  else .ok false

end NodeFilter

namespace EdgeFilter

def of (types : List EdgeType) (properties : Properties) : EdgeFilter := ⟨types, properties.toList⟩

def isUnconstrained (filter : EdgeFilter) : Bool :=
  filter.types.isEmpty && filter.properties.isEmpty

def allowsType (filter : EdgeFilter) (type : EdgeType) : Bool :=
  filter.types.isEmpty || filter.types.contains type

def accepts? (filter : EdgeFilter) (edge : Edge) : Except Incomparable Bool :=
  if filter.allowsType edge.type then edge.properties.satisfies? filter.properties
  else .ok false

end EdgeFilter

end PropertyGraph
