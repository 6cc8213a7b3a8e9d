import PropertyGraph.Proofs.Graph.Evolution
import PropertyGraph.Proofs.Store.Handles

namespace PropertyGraph

def Change.handles : Change → List Handle
  | .newNode _ _ | .addNodeIndex _ | .addEdgeIndex _ | .dropNodeIndex _ | .dropEdgeIndex _ => []
  | .newEdge source target _ _ => [.node source, .node target]
  | .setNodeProperty id _ _ | .removeNodeProperty id _ | .setNodeLabels id _ | .addNodeLabel id _
  | .removeNodeLabel id _ | .detachNode id | .removeNode id => [.node id]
  | .setEdgeProperty id _ _ | .removeEdgeProperty id _ | .setEdgeType id _ | .removeEdge id =>
      [.edge id]

theorem Store.Evolves.keeps {s t : Store} (step : s.Evolves t) : s.Keeps t := by
  cases step with
  | same => exact .refl s
  | change change => exact s.keeps_apply change
  | node found labels properties => exact keeps_setNode (hasNode_of_node? found) _
  | edge found properties => exact keeps_setEdge found _

namespace Graph

def made? (g : Graph) : Change → Option Handle
  | .newNode labels properties => (g.newNode labels properties).2.toOption.map .node
  | .newEdge source target type properties =>
      (g.newEdge source target type properties).2.toOption.map .edge
  | _ => none

def made (g : Graph) : List Change → List Handle
  | [] => []
  | change :: rest => (g.made? change).toList ++ (g.apply change).made rest

def outcome (g : Graph) : Change → Except GraphError Unit
  | .newNode labels properties => (g.newNode labels properties).2.map fun _ => ()
  | .newEdge source target type properties =>
      (g.newEdge source target type properties).2.map fun _ => ()
  | .setNodeProperty id key value => (g.setNodeProperty id key value).2.map fun _ => ()
  | .removeNodeProperty id key => (g.removeNodeProperty id key).2.map fun _ => ()
  | .setNodeLabels id labels => (g.setNodeLabels id labels).2
  | .addNodeLabel id label => (g.addNodeLabel id label).2.map fun _ => ()
  | .removeNodeLabel id label => (g.removeNodeLabel id label).2.map fun _ => ()
  | .detachNode id => (g.detachNode id).2.map fun _ => ()
  | .removeNode id => (g.removeNode id).2.map fun _ => ()
  | .setEdgeProperty id key value => (g.setEdgeProperty id key value).2.map fun _ => ()
  | .removeEdgeProperty id key => (g.removeEdgeProperty id key).2.map fun _ => ()
  | .setEdgeType id type => (g.setEdgeType id type).2.map fun _ => ()
  | .removeEdge id => (g.removeEdge id).2.map fun _ => ()
  | .addNodeIndex key => (g.addNodeIndex key).2
  | .addEdgeIndex key => (g.addEdgeIndex key).2
  | .dropNodeIndex _ | .dropEdgeIndex _ => .ok ()

/-- The change takes away what the handle stands for: the edge or the node that it names, or an edge
at the node that it detaches or removes. -/
inductive Removes (g : Graph) : Change → Handle → Prop
  | edge {id : EdgeId} {edge : Edge} (removed : (g.removeEdge id).2 = .ok edge) :
      g.Removes (.removeEdge id) (.edge id)
  | node {id : NodeId} {node : Node} (removed : (g.removeNode id).2 = .ok node) :
      g.Removes (.removeNode id) (.node id)
  | edgeOfRemoved {id : NodeId} {node : Node} (removed : (g.removeNode id).2 = .ok node)
      {at_node : EdgeId} {edge : Edge} (found : g.edge? at_node = some edge)
      (ends : edge.source = id ∨ edge.target = id) : g.Removes (.removeNode id) (.edge at_node)
  | edgeOfDetached {id : NodeId} {edges : List Edge} (detached : (g.detachNode id).2 = .ok edges)
      {at_node : EdgeId} {edge : Edge} (found : g.edge? at_node = some edge)
      (ends : edge.source = id ∨ edge.target = id) : g.Removes (.detachNode id) (.edge at_node)

variable {g : Graph} {handle : Handle}

section Stores

theorem store_removeEdge (g : Graph) (id : EdgeId) :
    (g.removeEdge id).1.store = g.store.leftBy (g.store.removeEdge id) := by
  rw [removeEdge]
  cases g.store.removeEdge id <;> rfl

theorem store_detachNode (g : Graph) (id : NodeId) :
    (g.detachNode id).1.store = (g.store.detachNode id).1 := by
  rw [detachNode]
  rcases g.store.detachNode id with ⟨store, e | edges⟩
  · rfl
  · exact store_forgetEdges edges _

theorem store_removeNode (g : Graph) (id : NodeId) :
    (g.removeNode id).1.store = (g.store.removeNode id).1 := by
  rw [removeNode]
  rcases g.store.removeNode id with ⟨store, e | ⟨node, edges⟩⟩
  · rfl
  · exact store_forgetEdges edges _

end Stores

section Given

theorem newNode_eq_ok {labels : LabelSet} {properties : Properties} {id : NodeId}
    (made : (g.newNode labels properties).2 = .ok id) :
    (g.newNode labels properties).1.store = (g.store.addNode labels properties).1 ∧
      id = (g.store.addNode labels properties).2 := by
  rw [newNode] at made ⊢
  split at made
  · cases made
  · dsimp only at made ⊢
    split at made
    · cases made
    · cases made
      exact ⟨rfl, rfl⟩

theorem newEdge_eq_ok {source target : NodeId} {type : EdgeType} {properties : Properties}
    {id : EdgeId} (made : (g.newEdge source target type properties).2 = .ok id) :
    g.store.addEdge source target type properties =
      .ok ((g.newEdge source target type properties).1.store, id) := by
  rw [newEdge] at made ⊢
  split at made
  · cases made
  · split at made
    · cases made
    · dsimp only at made ⊢
      split at made
      · cases made
      · rename_i added _ _
        cases made
        exact added

theorem eq_ok_of_toOption {α : Type} {result : Except GraphError α} {a : α}
    (there : result.toOption = some a) : result = .ok a := by
  cases result with
  | error e => cases there
  | ok b =>
      cases there
      rfl

theorem fresh_of_made? {change : Change} (made : g.made? change = some handle) :
    ¬g.store.Used handle ∧ (g.apply change).store.Used handle := by
  cases change with
  | newNode labels properties =>
      obtain ⟨id, given, rfl⟩ := Option.map_eq_some_iff.mp made
      obtain ⟨store, rfl⟩ := newNode_eq_ok (eq_ok_of_toOption given)
      refine ⟨Nat.lt_irrefl _, ?_⟩
      simp only [apply, store]
      simp [Store.Used, Store.addNode]
  | newEdge source target type properties =>
      obtain ⟨id, given, rfl⟩ := Option.map_eq_some_iff.mp made
      have added := newEdge_eq_ok (eq_ok_of_toOption given)
      obtain ⟨-, -, index, -, edges⟩ := Store.addEdge_eq_ok added
      refine ⟨fun used => ?_, ?_⟩
      · rw [Store.Used, index] at used
        exact Nat.lt_irrefl _ used
      · simp only [apply, Store.Used, edges, index, Array.size_push]
        exact Nat.lt_succ_self _
  | _ => cases made

theorem not_used_of_mem_made {changes : List Change} (mem : handle ∈ g.made changes) :
    ¬g.store.Used handle := by
  induction changes generalizing g with
  | nil => cases mem
  | cons change rest ih =>
      rcases List.mem_append.mp mem with mem | mem
      · exact (fresh_of_made? (Option.mem_toList.mp mem)).1
      · exact fun used => ih mem ((g.apply_evolves change).keeps.used handle used)

theorem nodup_made (g : Graph) (changes : List Change) : (g.made changes).Nodup := by
  induction changes generalizing g with
  | nil => exact .nil
  | cons change rest ih =>
      refine List.Nodup.append (by cases g.made? change <;> simp) (ih _) fun handle here later => ?_
      exact not_used_of_mem_made later (fresh_of_made? (Option.mem_toList.mp here)).2

end Given

section Gone

theorem keeps_foldl (g : Graph) (changes : List Change) :
    g.store.Keeps (changes.foldl apply g).store := by
  induction changes generalizing g with
  | nil => exact .refl _
  | cons change rest ih => exact (g.apply_evolves change).keeps.trans (ih (g.apply change))

theorem Sound.has_of_removes (h : g.Sound) {change : Change} (removes : g.Removes change handle) :
    g.store.has handle = true ∧ (g.apply change).store.has handle = false := by
  have edge_live {id : EdgeId} {edge : Edge} (found : g.edge? id = some edge) :
      g.store.has (.edge id) = true := Option.isSome_iff_exists.mpr ⟨edge, found⟩
  have node_live {id : NodeId} {node : Node} (removed : (g.removeNode id).2 = .ok node) :
      ∃ node, g.store.node? id = some node := by
    cases found : g.store.node? id with
    | none =>
        rw [Graph.removeNode, Store.removeNode_of_dead found] at removed
        cases removed
    | some node => exact ⟨node, rfl⟩
  cases removes with
  | @edge id edge removed =>
      rw [Graph.removeEdge] at removed
      split at removed
      · cases removed
      · rename_i store edge' result
        refine ⟨edge_live (Store.removeEdge_eq_ok result).1, ?_⟩
        rw [Graph.apply, store_removeEdge, result]
        simp [Store.leftBy, Store.has, Store.hasEdge, Store.edge?_removeEdge result]
  | @node id node removed =>
      obtain ⟨node, found⟩ := node_live removed
      obtain ⟨after, edges, result, -, nodes, -⟩ := h.store.removeNode found
      refine ⟨Option.isSome_iff_exists.mpr ⟨node, found⟩, ?_⟩
      rw [Graph.apply, store_removeNode, result]
      simp [Store.has, Store.hasNode, nodes]
  | @edgeOfRemoved id node removed at_node edge found ends =>
      obtain ⟨node, there⟩ := node_live removed
      obtain ⟨after, edges, result, -, -, records, -⟩ := h.store.removeNode there
      have listed := h.store.mem_incident.mpr ⟨edge, found, ends⟩
      refine ⟨edge_live found, ?_⟩
      rw [Graph.apply, store_removeNode, result]
      simp [Store.has, Store.hasEdge, records, listed]
  | @edgeOfDetached id edges detached at_node edge found ends =>
      have live : g.store.hasNode id = true := by
        rcases ends with rfl | rfl
        · exact h.store.sourceLive found
        · exact h.store.targetLive found
      obtain ⟨after, edges, result, -, -, records, -⟩ := h.store.detachNode live
      have listed := h.store.mem_incident.mpr ⟨edge, found, ends⟩
      refine ⟨edge_live found, ?_⟩
      rw [Graph.apply, store_detachNode, result]
      simp [Store.has, Store.hasEdge, records, listed]

theorem Sound.gone_after (h : g.Sound) {change : Change} (removes : g.Removes change handle)
    (later : List Change) : (later.foldl Graph.apply (g.apply change)).store.has handle = false := by
  obtain ⟨there, gone⟩ := h.has_of_removes removes
  have used := (g.apply_evolves change).keeps.used handle (Store.used_of_has there)
  exact (keeps_foldl _ later).gone handle used gone

theorem refused_of_absent (absent : g.store.has handle = false) {change : Change}
    (names : handle ∈ change.handles) : ∃ e, g.outcome change = .error e := by
  cases change with
  | newNode | addNodeIndex | addEdgeIndex | dropNodeIndex | dropEdgeIndex => cases names
  | newEdge source target type properties =>
      rw [outcome, newEdge]
      cases g.edgeIndexes.checkAll? properties with
      | error e => exact ⟨_, rfl⟩
      | ok =>
          cases added : g.store.addEdge source target type properties with
          | error e => exact ⟨e, rfl⟩
          | ok result =>
              obtain ⟨source_live, target_live, -⟩ := Store.addEdge_eq_ok added
              simp only [Change.handles, List.mem_cons, List.not_mem_nil, or_false] at names
              rcases names with rfl | rfl
              · exact absurd source_live (Bool.eq_false_iff.mp absent)
              · exact absurd target_live (Bool.eq_false_iff.mp absent)
  | setNodeProperty | removeNodeProperty | setNodeLabels | addNodeLabel | removeNodeLabel =>
      cases List.mem_singleton.mp names
      exact ⟨_, by
        simp only [outcome, setNodeProperty, removeNodeProperty, setNodeLabels, addNodeLabel,
          removeNodeLabel, node?, Store.node?_of_absent absent]
        rfl⟩
  | detachNode id =>
      cases List.mem_singleton.mp names
      exact ⟨_, by
        simp only [outcome, detachNode, Store.detachNode_of_dead absent]
        rfl⟩
  | removeNode id =>
      cases List.mem_singleton.mp names
      exact ⟨_, by
        simp only [outcome, removeNode, Store.removeNode_of_dead (Store.node?_of_absent absent)]
        rfl⟩
  | setEdgeProperty | removeEdgeProperty =>
      cases List.mem_singleton.mp names
      exact ⟨_, by
        simp only [outcome, setEdgeProperty, removeEdgeProperty, edge?, Store.edge?_of_absent absent]
        rfl⟩
  | setEdgeType id type =>
      cases List.mem_singleton.mp names
      exact ⟨_, by
        simp only [outcome, setEdgeType, Store.retypeEdge, Store.edge?_of_absent absent]
        rfl⟩
  | removeEdge id =>
      cases List.mem_singleton.mp names
      exact ⟨_, by
        simp only [outcome, removeEdge, Store.removeEdge, Store.edge?_of_absent absent]
        rfl⟩

end Gone

end Graph

end PropertyGraph
