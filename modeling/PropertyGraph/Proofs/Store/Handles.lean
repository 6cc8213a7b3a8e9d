import PropertyGraph.Proofs.Store.Reachable

namespace PropertyGraph

inductive Handle where
  | node (id : NodeId)
  | edge (id : EdgeId)
  deriving DecidableEq, Repr

namespace Store

def has (s : Store) : Handle → Bool
  | .node id => s.hasNode id
  | .edge id => s.hasEdge id

def Used (s : Store) : Handle → Prop
  | .node id => id.index < s.nodes.size
  | .edge id => id.index < s.edges.size

variable {s t u : Store} {handle : Handle}

theorem used_of_has (there : s.has handle = true) : s.Used handle := by
  cases handle with
  | node id => exact index_lt_of_hasNode there
  | edge id =>
      obtain ⟨edge, found⟩ := Option.isSome_iff_exists.mp there
      exact index_lt_of_edge? found

theorem node?_of_absent {id : NodeId} (absent : s.has (.node id) = false) : s.node? id = none := by
  simpa [has, hasNode] using absent

theorem edge?_of_absent {id : EdgeId} (absent : s.has (.edge id) = false) : s.edge? id = none := by
  simpa [has, hasEdge] using absent

structure Keeps (s t : Store) : Prop where
  used : ∀ handle, s.Used handle → t.Used handle
  gone : ∀ handle, s.Used handle → s.has handle = false → t.has handle = false

theorem Keeps.refl (s : Store) : s.Keeps s := ⟨fun _ used => used, fun _ _ gone => gone⟩

theorem Keeps.trans (first : s.Keeps t) (second : t.Keeps u) : s.Keeps u where
  used := fun handle used => second.used handle (first.used handle used)
  gone := fun handle used gone =>
    second.gone handle (first.used handle used) (first.gone handle used gone)

theorem keeps_of_slots (nodes : s.nodes.size ≤ t.nodes.size) (edges : s.edges.size ≤ t.edges.size)
    (node : ∀ id, id.index < s.nodes.size → s.hasNode id = false → t.hasNode id = false)
    (edge : ∀ id, id.index < s.edges.size → s.hasEdge id = false → t.hasEdge id = false) :
    s.Keeps t := by
  constructor
  · intro handle used
    cases handle with
    | node id => exact Nat.lt_of_lt_of_le used nodes
    | edge id => exact Nat.lt_of_lt_of_le used edges
  · intro handle used gone
    cases handle with
    | node id => exact node id used gone
    | edge id => exact edge id used gone

section Changes

theorem keeps_rewire (s : Store) (source target : NodeId)
    (change : GroupMap EdgeType EdgeId → GroupMap EdgeType EdgeId) :
    s.Keeps (s.rewire source target change) := by
  refine keeps_of_slots (Nat.le_of_eq (size_rewire ..).symm) (Nat.le_refl _) (fun id _ gone => ?_)
    fun id _ gone => gone
  rwa [hasNode, node?_rewire]

theorem keeps_setNode {id : NodeId} (live : s.hasNode id = true) (node : Node) :
    s.Keeps (s.setNode id node) := by
  refine keeps_of_slots (by simp [setNode]) (Nat.le_refl _) (fun other _ gone => ?_)
    fun other _ gone => gone
  rwa [hasNode_setNode live]

theorem keeps_setEdge {id : EdgeId} {old : Edge} (found : s.edge? id = some old) (edge : Edge) :
    s.Keeps (s.setEdge id edge) := by
  refine keeps_of_slots (Nat.le_refl _) (by simp [setEdge]) (fun other _ gone => gone)
    fun other _ gone => ?_
  rw [hasEdge, edge?_setEdge found]
  split
  · rename_i same
    simp [same, hasEdge, found] at gone
  · exact gone

theorem keeps_addNode (s : Store) (labels : LabelSet) (properties : Properties) :
    s.Keeps (s.addNode labels properties).1 := by
  refine keeps_of_slots (by simp [addNode]) (Nat.le_refl _) (fun id used gone => ?_)
    fun id _ gone => gone
  rw [hasNode, node?_addNode]
  split
  · rename_i fresh
    rw [fresh] at used
    exact absurd used (Nat.lt_irrefl s.nodes.size)
  · exact gone

theorem keeps_addEdge {source target : NodeId} {type : EdgeType} {properties : Properties}
    {id : EdgeId} (added : s.addEdge source target type properties = .ok (t, id)) : s.Keeps t := by
  obtain ⟨-, -, fresh, nodes, edges⟩ := addEdge_eq_ok added
  refine keeps_of_slots (by rw [nodes, size_link]) (by simp [edges]) (fun other _ gone => ?_)
    fun other used gone => ?_
  · rwa [hasNode, node?_addEdge added]
  · rw [hasEdge, edge?_addEdge added]
    split
    · rename_i same
      rw [same, fresh] at used
      exact absurd used (Nat.lt_irrefl _)
    · exact gone

theorem keeps_removeEdge {id : EdgeId} {edge : Edge} (removed : s.removeEdge id = .ok (t, edge)) :
    s.Keeps t := by
  obtain ⟨-, nodes, edges⟩ := removeEdge_eq_ok removed
  refine keeps_of_slots (by rw [nodes, size_unlink]) (by simp [edges]) (fun other _ gone => ?_)
    fun other _ gone => ?_
  · rwa [hasNode, node?_removeEdge removed]
  · rw [hasEdge, edge?_removeEdge removed]
    split
    · rfl
    · exact gone

theorem keeps_removeEdges (s : Store) (ids : List EdgeId) : s.Keeps (s.removeEdges ids).1 := by
  induction ids generalizing s with
  | nil => exact .refl s
  | cons id rest ih =>
      rw [removeEdges]
      split
      · exact .refl s
      · rename_i mid edge removed
        exact (keeps_removeEdge removed).trans (ih mid)

theorem keeps_detachNode (s : Store) (id : NodeId) : s.Keeps (s.detachNode id).1 := by
  rw [detachNode]
  split
  · exact s.keeps_removeEdges _
  · exact .refl s

theorem keeps_removeNode (s : Store) (id : NodeId) : s.Keeps (s.removeNode id).1 := by
  have detached := s.keeps_detachNode id
  rw [removeNode]
  generalize s.detachNode id = result at detached ⊢
  obtain ⟨mid, e | edges⟩ := result
  · exact detached
  · refine detached.trans ?_
    dsimp only
    split
    · exact .refl mid
    · rename_i node found
      refine keeps_of_slots (by simp) (Nat.le_refl _) (fun other _ gone => ?_)
        fun other _ gone => gone
      rw [hasNode, node?_cleared (hasNode_of_node? found) rfl]
      split
      · rfl
      · exact gone

theorem keeps_retypeEdge {id : EdgeId} {type old : EdgeType}
    (retyped : s.retypeEdge id type = .ok (t, old)) : s.Keeps t := by
  rw [retypeEdge] at retyped
  split at retyped
  · cases retyped
  · rename_i edge found
    cases retyped
    let unlinked := s.unlink edge.source edge.target edge.type id
    have linked : s.Keeps (unlinked.link edge.source edge.target type id) :=
      (s.keeps_rewire edge.source edge.target (·.eraseAt edge.type id)).trans
        (unlinked.keeps_rewire edge.source edge.target (·.insertAt type id))
    have there : (unlinked.link edge.source edge.target type id).edge? id = some edge := found
    exact linked.trans (keeps_setEdge there _)

theorem keeps_apply (s : Store) (change : StoreChange) : s.Keeps (s.apply change) := by
  cases change with
  | addNode labels properties => exact s.keeps_addNode labels properties
  | addEdge source target type properties =>
      exact leftBy_induction (.refl s) fun after id added => keeps_addEdge added
  | removeEdge id => exact leftBy_induction (.refl s) fun after edge removed => keeps_removeEdge removed
  | detachNode id => exact s.keeps_detachNode id
  | removeNode id => exact s.keeps_removeNode id
  | retypeEdge id type => exact leftBy_induction (.refl s) fun after old retyped => keeps_retypeEdge retyped

end Changes

end Store

end PropertyGraph
