import PropertyGraph.Proofs.Graph.Mirror

namespace PropertyGraph

inductive Change where
  | newNode (labels : LabelSet) (properties : Properties)
  | newEdge (source target : NodeId) (type : EdgeType) (properties : Properties)
  | setNodeProperty (id : NodeId) (key : String) (value : PropertyValue)
  | removeNodeProperty (id : NodeId) (key : String)
  | setNodeLabels (id : NodeId) (labels : LabelSet)
  | addNodeLabel (id : NodeId) (label : Label)
  | removeNodeLabel (id : NodeId) (label : Label)
  | detachNode (id : NodeId)
  | removeNode (id : NodeId)
  | setEdgeProperty (id : EdgeId) (key : String) (value : PropertyValue)
  | removeEdgeProperty (id : EdgeId) (key : String)
  | setEdgeType (id : EdgeId) (type : EdgeType)
  | removeEdge (id : EdgeId)
  | addNodeIndex (key : String)
  | addEdgeIndex (key : String)
  | dropNodeIndex (key : String)
  | dropEdgeIndex (key : String)

namespace Graph

def apply (g : Graph) : Change → Graph
  | .newNode labels properties => (g.newNode labels properties).1
  | .newEdge source target type properties => (g.newEdge source target type properties).1
  | .setNodeProperty id key value => (g.setNodeProperty id key value).1
  | .removeNodeProperty id key => (g.removeNodeProperty id key).1
  | .setNodeLabels id labels => (g.setNodeLabels id labels).1
  | .addNodeLabel id label => (g.addNodeLabel id label).1
  | .removeNodeLabel id label => (g.removeNodeLabel id label).1
  | .detachNode id => (g.detachNode id).1
  | .removeNode id => (g.removeNode id).1
  | .setEdgeProperty id key value => (g.setEdgeProperty id key value).1
  | .removeEdgeProperty id key => (g.removeEdgeProperty id key).1
  | .setEdgeType id type => (g.setEdgeType id type).1
  | .removeEdge id => (g.removeEdge id).1
  | .addNodeIndex key => (g.addNodeIndex key).1
  | .addEdgeIndex key => (g.addEdgeIndex key).1
  | .dropNodeIndex key => (g.dropNodeIndex key).1
  | .dropEdgeIndex key => (g.dropEdgeIndex key).1

inductive Reachable : Graph → Prop
  | empty : Reachable ∅
  | step {g : Graph} (change : Change) : Reachable g → Reachable (g.apply change)

theorem Sound.apply {g : Graph} (h : g.Sound) (change : Change) : (g.apply change).Sound := by
  cases change with
  | newNode labels properties => exact h.newNode labels properties
  | newEdge source target type properties => exact h.newEdge source target type properties
  | setNodeProperty id key value => exact h.setNodeProperty id key value
  | removeNodeProperty id key => exact h.removeNodeProperty id key
  | setNodeLabels id labels => exact h.setNodeLabels id labels
  | addNodeLabel id label => exact h.addNodeLabel id label
  | removeNodeLabel id label => exact h.removeNodeLabel id label
  | detachNode id => exact h.detachNode id
  | removeNode id => exact h.removeNode id
  | setEdgeProperty id key value => exact h.setEdgeProperty id key value
  | removeEdgeProperty id key => exact h.removeEdgeProperty id key
  | setEdgeType id type => exact h.setEdgeType id type
  | removeEdge id => exact h.removeEdge id
  | addNodeIndex key => exact h.addNodeIndex key
  | addEdgeIndex key => exact h.addEdgeIndex key
  | dropNodeIndex key => exact h.dropNodeIndex key
  | dropEdgeIndex key => exact h.dropEdgeIndex key

theorem Reachable.sound {g : Graph} (reachable : g.Reachable) : g.Sound := by
  induction reachable with
  | empty => exact sound_empty
  | step change _ ih => exact ih.apply change

theorem Reachable.foldl {g : Graph} (reachable : g.Reachable) (changes : List Change) :
    (changes.foldl apply g).Reachable := by
  induction changes generalizing g with
  | nil => exact reachable
  | cons change rest ih => exact ih (reachable.step change)

def pair : Graph :=
  (((∅ : Graph).apply (.newNode ∅ ∅)).apply (.newNode ∅ ∅)).apply (.newEdge ⟨0⟩ ⟨1⟩ ⟨"T"⟩ ∅)

theorem reachable_pair : pair.Reachable := .step _ (.step _ (.step _ .empty))

/-- Two nodes under an index that refused a value, the second no longer indexed, and a loop. -/
def indexed : Graph :=
  [.newNode (.ofList [⟨"A"⟩]) (.ofPairs [("k", .integer 1)]),
    .newNode (.ofList [⟨"A"⟩, ⟨"B"⟩]) (.ofPairs [("k", .integer 1)]), .addNodeIndex "k",
    .setNodeProperty ⟨0⟩ "k" (.string "1"), .removeNodeProperty ⟨1⟩ "k",
    .newEdge ⟨0⟩ ⟨0⟩ ⟨"T"⟩ ∅].foldl apply ∅

theorem reachable_indexed : indexed.Reachable := Reachable.empty.foldl _

end Graph

end PropertyGraph
