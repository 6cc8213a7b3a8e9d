import PropertyGraph.Proofs.Graph.Reachable
import PropertyGraph.Proofs.Store.Reachable

/-!
What a change of a graph does to its store: nothing, a change of the store, or another record in the
slot of one that is there. Whatever survives these three survives every change.
-/

namespace PropertyGraph

inductive Store.Evolves (s : Store) : Store → Prop
  | same : s.Evolves s
  | change (change : StoreChange) : s.Evolves (s.apply change)
  | node {id : NodeId} {node : Node} (found : s.node? id = some node) (labels : LabelSet)
      (properties : Properties) : s.Evolves (s.setNode id { node with labels, properties })
  | edge {id : EdgeId} {edge : Edge} (found : s.edge? id = some edge) (properties : Properties) :
      s.Evolves (s.setEdge id { edge with properties })

theorem Store.Counted.evolves {s t : Store} (h : s.Counted) (step : s.Evolves t) : t.Counted := by
  cases step with
  | same => exact h
  | change change => exact h.apply change
  | node found labels properties => exact h.setNode (hasNode_of_node? found) _
  | edge found properties => exact h.setEdge found _

namespace Graph

variable {g : Graph}

theorem store_forgetEdges (edges : List Edge) (g : Graph) :
    (edges.foldl forgetEdge g).store = g.store := by
  induction edges generalizing g with
  | nil => rfl
  | cons edge rest ih => exact ih (g.forgetEdge edge)

section Nodes

theorem newNode_evolves (g : Graph) (labels : LabelSet) (properties : Properties) :
    g.store.Evolves (g.newNode labels properties).1.store := by
  unfold newNode
  split
  · exact .same
  · simp only
    split <;> exact .change (.addNode labels properties)

theorem setNodeProperty_evolves (g : Graph) (id : NodeId) (key : String) (value : PropertyValue) :
    g.store.Evolves (g.setNodeProperty id key value).1.store := by
  unfold setNodeProperty
  split
  · exact .same
  · rename_i node found
    simp only
    split
    · exact .same
    · exact .node found node.labels _

theorem removeNodeProperty_evolves (g : Graph) (id : NodeId) (key : String) :
    g.store.Evolves (g.removeNodeProperty id key).1.store := by
  unfold removeNodeProperty
  split
  · exact .same
  · rename_i node found
    split
    · exact .same
    · exact .node found node.labels _

theorem relabel_evolves {id : NodeId} {node : Node} (found : g.node? id = some node)
    (labels : LabelSet) : g.store.Evolves (g.relabel id node labels).store :=
  .node found labels node.properties

theorem setNodeLabels_evolves (g : Graph) (id : NodeId) (labels : LabelSet) :
    g.store.Evolves (g.setNodeLabels id labels).1.store := by
  unfold setNodeLabels
  split
  · exact .same
  · rename_i node found
    exact relabel_evolves found labels

theorem addNodeLabel_evolves (g : Graph) (id : NodeId) (label : Label) :
    g.store.Evolves (g.addNodeLabel id label).1.store := by
  unfold addNodeLabel
  split
  · exact .same
  · rename_i node found
    split
    · exact .same
    · exact relabel_evolves found _

theorem removeNodeLabel_evolves (g : Graph) (id : NodeId) (label : Label) :
    g.store.Evolves (g.removeNodeLabel id label).1.store := by
  unfold removeNodeLabel
  split
  · exact .same
  · rename_i node found
    split
    · exact relabel_evolves found _
    · exact .same

theorem detachNode_evolves (g : Graph) (id : NodeId) :
    g.store.Evolves (g.detachNode id).1.store := by
  have step : g.store.Evolves (g.store.detachNode id).1 := .change (.detachNode id)
  unfold detachNode
  split
  · rename_i store e detached
    rwa [detached] at step
  · rename_i store edges detached
    rw [store_forgetEdges]
    rwa [detached] at step

theorem removeNode_evolves (g : Graph) (id : NodeId) :
    g.store.Evolves (g.removeNode id).1.store := by
  have step : g.store.Evolves (g.store.removeNode id).1 := .change (.removeNode id)
  unfold removeNode
  split
  · rename_i store e removed
    rwa [removed] at step
  · rename_i store node edges removed
    simp only [store_forgetEdges]
    rwa [removed] at step

end Nodes

section Edges

theorem newEdge_evolves (g : Graph) (source target : NodeId) (type : EdgeType)
    (properties : Properties) :
    g.store.Evolves (g.newEdge source target type properties).1.store := by
  have step : g.store.Evolves (g.store.leftBy (g.store.addEdge source target type properties)) :=
    .change (.addEdge source target type properties)
  unfold newEdge
  split
  · exact .same
  · split
    · exact .same
    · rename_i store id added
      rw [added] at step
      simp only
      split <;> exact step

theorem setEdgeProperty_evolves (g : Graph) (id : EdgeId) (key : String) (value : PropertyValue) :
    g.store.Evolves (g.setEdgeProperty id key value).1.store := by
  unfold setEdgeProperty
  split
  · exact .same
  · rename_i edge found
    simp only
    split
    · exact .same
    · exact .edge found _

theorem removeEdgeProperty_evolves (g : Graph) (id : EdgeId) (key : String) :
    g.store.Evolves (g.removeEdgeProperty id key).1.store := by
  unfold removeEdgeProperty
  split
  · exact .same
  · rename_i edge found
    split
    · exact .same
    · exact .edge found _

theorem setEdgeType_evolves (g : Graph) (id : EdgeId) (type : EdgeType) :
    g.store.Evolves (g.setEdgeType id type).1.store := by
  have step : g.store.Evolves (g.store.leftBy (g.store.retypeEdge id type)) :=
    .change (.retypeEdge id type)
  unfold setEdgeType
  split
  · exact .same
  · rename_i store old retyped
    rwa [retyped] at step

theorem removeEdge_evolves (g : Graph) (id : EdgeId) :
    g.store.Evolves (g.removeEdge id).1.store := by
  have step : g.store.Evolves (g.store.leftBy (g.store.removeEdge id)) := .change (.removeEdge id)
  unfold removeEdge
  split
  · exact .same
  · rename_i store edge removed
    rwa [removed] at step

end Edges

theorem apply_evolves (g : Graph) (change : Change) : g.store.Evolves (g.apply change).store := by
  cases change with
  | newNode labels properties => exact g.newNode_evolves labels properties
  | newEdge source target type properties => exact g.newEdge_evolves source target type properties
  | setNodeProperty id key value => exact g.setNodeProperty_evolves id key value
  | removeNodeProperty id key => exact g.removeNodeProperty_evolves id key
  | setNodeLabels id labels => exact g.setNodeLabels_evolves id labels
  | addNodeLabel id label => exact g.addNodeLabel_evolves id label
  | removeNodeLabel id label => exact g.removeNodeLabel_evolves id label
  | detachNode id => exact g.detachNode_evolves id
  | removeNode id => exact g.removeNode_evolves id
  | setEdgeProperty id key value => exact g.setEdgeProperty_evolves id key value
  | removeEdgeProperty id key => exact g.removeEdgeProperty_evolves id key
  | setEdgeType id type => exact g.setEdgeType_evolves id type
  | removeEdge id => exact g.removeEdge_evolves id
  | addNodeIndex key | addEdgeIndex key | dropNodeIndex key | dropEdgeIndex key => exact .same

theorem Reachable.counted (reachable : g.Reachable) : g.store.Counted := by
  induction reachable with
  | empty => exact Store.counted_empty
  | step change _ ih => exact ih.evolves (apply_evolves _ change)

end Graph

end PropertyGraph
