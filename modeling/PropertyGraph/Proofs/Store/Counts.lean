import PropertyGraph.Proofs.Store.Detachment
import PropertyGraph.Proofs.Store.Listing

namespace PropertyGraph

namespace Store

variable {s t : Store}

section Length

theorem countP_range_drop {n i : Nat} (bound : i < n) {p q : Nat → Bool} (there : p i = true)
    (gone : q i = false) (same : ∀ j, j ≠ i → q j = p j) :
    (List.range n).countP q + 1 = (List.range n).countP p := by
  induction n with
  | zero => cases bound
  | succ n ih =>
      rw [List.range_succ, List.countP_append, List.countP_append, List.countP_singleton,
        List.countP_singleton]
      -- The slot that was emptied is the last one or lies among those before it.
      by_cases last : i = n
      · have before : (List.range n).countP q = (List.range n).countP p :=
          List.countP_congr fun j mem => by
            have below := List.mem_range.mp mem
            rw [same j (by omega)]
        rw [before, ← last, there, gone]
        rfl
      · have earlier := ih (by omega)
        rw [same n (Ne.symm last)]
        omega

theorem length_liveNodes (s : Store) :
    s.liveNodes.length = (List.range s.nodes.size).countP fun i => s.hasNode ⟨i⟩ := by
  rw [liveNodes, filterMap_eq_range, List.length_filterMap_eq_countP, Array.length_toList]
  refine List.countP_congr fun i _ => ?_
  rw [Array.getElem?_toList]
  rfl

theorem length_liveEdges (s : Store) :
    s.liveEdges.length = (List.range s.edges.size).countP fun i => s.hasEdge ⟨i⟩ := by
  rw [liveEdges, filterMap_eq_range, List.length_filterMap_eq_countP, Array.length_toList]
  refine List.countP_congr fun i _ => ?_
  rw [Array.getElem?_toList]
  rfl

theorem length_liveNodes_congr (size : t.nodes.size = s.nodes.size)
    (same : ∀ n, t.hasNode n = s.hasNode n) : t.liveNodes.length = s.liveNodes.length := by
  rw [length_liveNodes, length_liveNodes, size]
  simp only [same]

theorem length_liveEdges_congr (size : t.edges.size = s.edges.size)
    (same : ∀ e, t.hasEdge e = s.hasEdge e) : t.liveEdges.length = s.liveEdges.length := by
  rw [length_liveEdges, length_liveEdges, size]
  simp only [same]

theorem length_liveNodes_drop {id : NodeId} (size : t.nodes.size = s.nodes.size)
    (live : s.hasNode id = true)
    (gone : ∀ n, t.node? n = if n = id then none else s.node? n) :
    t.liveNodes.length + 1 = s.liveNodes.length := by
  rw [length_liveNodes, length_liveNodes, size]
  refine countP_range_drop (index_lt_of_hasNode live) live ?_ fun i apart => ?_
  · rw [hasNode, gone, if_pos rfl]
    rfl
  · have other : (⟨i⟩ : NodeId) ≠ id := fun eq => apart (congrArg NodeId.index eq)
    rw [hasNode, gone, if_neg other, hasNode]

theorem length_liveEdges_drop {id : EdgeId} (size : t.edges.size = s.edges.size)
    (live : s.hasEdge id = true)
    (gone : ∀ e, t.edge? e = if e = id then none else s.edge? e) :
    t.liveEdges.length + 1 = s.liveEdges.length := by
  obtain ⟨edge, found⟩ := Option.isSome_iff_exists.mp live
  rw [length_liveEdges, length_liveEdges, size]
  refine countP_range_drop (index_lt_of_edge? found) live ?_ fun i apart => ?_
  · rw [hasEdge, gone, if_pos rfl]
    rfl
  · have other : (⟨i⟩ : EdgeId) ≠ id := fun eq => apart (congrArg EdgeId.index eq)
    rw [hasEdge, gone, if_neg other, hasEdge]

end Length

structure Counted (s : Store) : Prop where
  nodes : s.nodeCount = s.liveNodes.length
  edges : s.edgeCount = s.liveEdges.length

section Counted

variable {after : Store} {source target : NodeId} {type old : EdgeType} {properties : Properties}
variable {id : EdgeId} {edge : Edge}

theorem counted_empty : (∅ : Store).Counted := ⟨rfl, rfl⟩

theorem Counted.congr (h : s.Counted) (nodes : t.nodes.size = s.nodes.size)
    (edges : t.edges.size = s.edges.size) (sameNodes : ∀ n, t.hasNode n = s.hasNode n)
    (sameEdges : ∀ e, t.hasEdge e = s.hasEdge e)
    (counters : t.nodeCount = s.nodeCount ∧ t.edgeCount = s.edgeCount) : t.Counted := by
  obtain ⟨nodeCount, edgeCount⟩ := counters
  constructor
  · rw [nodeCount, h.nodes, length_liveNodes_congr nodes sameNodes]
  · rw [edgeCount, h.edges, length_liveEdges_congr edges sameEdges]

theorem Counted.addNode (h : s.Counted) (labels : LabelSet) (properties : Properties) :
    (s.addNode labels properties).1.Counted := by
  constructor
  · simp [Store.addNode, liveNodes, h.nodes]
  · exact h.edges

theorem Counted.setNode (h : s.Counted) {n : NodeId} (live : s.hasNode n = true) (node : Node) :
    (s.setNode n node).Counted :=
  h.congr (by simp [Store.setNode]) rfl (hasNode_setNode live node) (fun _ => rfl) ⟨rfl, rfl⟩

theorem Counted.setEdge (h : s.Counted) (found : s.edge? id = some edge) (record : Edge) :
    (s.setEdge id record).Counted := by
  refine h.congr rfl (by simp [Store.setEdge]) (fun _ => rfl) (fun e => ?_) ⟨rfl, rfl⟩
  rw [hasEdge, edge?_setEdge found]
  split
  · rename_i same
    rw [same, hasEdge, found]
    rfl
  · rfl

theorem size_link (s : Store) (source target : NodeId) (type : EdgeType) (id : EdgeId) :
    (s.link source target type id).nodes.size = s.nodes.size := by
  rw [link_eq_rewire, size_rewire]

theorem size_unlink (s : Store) (source target : NodeId) (type : EdgeType) (id : EdgeId) :
    (s.unlink source target type id).nodes.size = s.nodes.size := by
  rw [unlink_eq_rewire, size_rewire]

theorem Counted.link (h : s.Counted) (source target : NodeId) (type : EdgeType) (id : EdgeId) :
    (s.link source target type id).Counted :=
  h.congr (size_link ..) rfl (fun n => by rw [hasNode, link_eq_rewire, node?_rewire, hasNode])
    (fun _ => rfl) ⟨rfl, rfl⟩

theorem Counted.unlink (h : s.Counted) (source target : NodeId) (type : EdgeType) (id : EdgeId) :
    (s.unlink source target type id).Counted :=
  h.congr (size_unlink ..) rfl (fun n => by rw [hasNode, unlink_eq_rewire, node?_rewire, hasNode])
    (fun _ => rfl) ⟨rfl, rfl⟩

theorem counters_addEdge (h : s.addEdge source target type properties = .ok (after, id)) :
    after.nodeCount = s.nodeCount ∧ after.edgeCount = s.edgeCount + 1 := by
  unfold Store.addEdge at h
  split at h
  · cases h
  · split at h
    · cases h
    · cases h
      exact ⟨rfl, rfl⟩

theorem Counted.addEdge (hs : s.Counted)
    (h : s.addEdge source target type properties = .ok (after, id)) : after.Counted := by
  obtain ⟨-, -, -, nodes, edges⟩ := addEdge_eq_ok h
  obtain ⟨nodeCount, edgeCount⟩ := counters_addEdge h
  constructor
  · rw [nodeCount, hs.nodes]
    refine (length_liveNodes_congr ?_ fun n => ?_).symm
    · rw [nodes, size_link]
    · rw [hasNode, node?_addEdge h, hasNode]
  · rw [edgeCount, hs.edges, liveEdges, liveEdges, edges]
    simp

theorem counters_removeEdge (h : s.removeEdge id = .ok (after, edge)) :
    after.nodeCount = s.nodeCount ∧ after.edgeCount = s.edgeCount - 1 := by
  unfold Store.removeEdge at h
  split at h
  · cases h
  · cases h
    exact ⟨rfl, rfl⟩

theorem Counted.removeEdge (hs : s.Counted) (h : s.removeEdge id = .ok (after, edge)) :
    after.Counted ∧ after.edgeCount + 1 = s.edgeCount := by
  obtain ⟨found, nodes, edges⟩ := removeEdge_eq_ok h
  obtain ⟨nodeCount, edgeCount⟩ := counters_removeEdge h
  have live : s.hasEdge id = true := Option.isSome_iff_exists.mpr ⟨edge, found⟩
  have size : after.edges.size = s.edges.size := by rw [edges, Array.size_setIfInBounds]
  have dropped := length_liveEdges_drop size live (edge?_removeEdge h)
  have counted := hs.edges
  refine ⟨⟨?_, by omega⟩, by omega⟩
  rw [nodeCount, hs.nodes]
  refine (length_liveNodes_congr ?_ fun n => ?_).symm
  · rw [nodes, size_unlink]
  · rw [hasNode, node?_removeEdge h, hasNode]

theorem Counted.retypeEdge (hs : s.Counted) (h : s.retypeEdge id type = .ok (after, old)) :
    after.Counted := by
  unfold Store.retypeEdge at h
  split at h
  · cases h
  · rename_i edge found
    obtain ⟨rfl, -⟩ := Prod.mk.inj (Except.ok.inj h)
    have kept : ((s.unlink edge.source edge.target edge.type id).link edge.source edge.target
        type id).edge? id = some edge := by
      rw [link_eq_rewire, edge?_rewire, unlink_eq_rewire, edge?_rewire, found]
    exact ((hs.unlink ..).link ..).setEdge kept _

theorem Counted.removeEdges (hs : s.Counted) (ids : List EdgeId) :
    (s.removeEdges ids).1.Counted ∧ (s.removeEdges ids).1.nodeCount = s.nodeCount ∧
      ∀ edges, (s.removeEdges ids).2 = .ok edges →
        (s.removeEdges ids).1.edgeCount + edges.length = s.edgeCount := by
  -- Each removed edge takes one off its counter, up to the first that is not there.
  induction ids generalizing s with
  | nil =>
      refine ⟨hs, rfl, fun edges eq => ?_⟩
      cases eq
      rfl
  | cons id rest ih =>
      rw [Store.removeEdges]
      cases removed : s.removeEdge id with
      | error e => exact ⟨hs, rfl, fun edges eq => by cases eq⟩
      | ok result =>
          obtain ⟨mid, edge⟩ := result
          obtain ⟨counted, less⟩ := hs.removeEdge removed
          obtain ⟨counted, nodeCount, taken⟩ := ih counted
          refine ⟨counted, nodeCount.trans (counters_removeEdge removed).1, fun edges eq => ?_⟩
          obtain ⟨others, later, rfl⟩ := exists_of_map_eq_ok eq
          have fewer := taken others later
          rw [List.length_cons]
          simp only
          omega

theorem Counted.detachNode (hs : s.Counted) (n : NodeId) :
    (s.detachNode n).1.Counted ∧ (s.detachNode n).1.nodeCount = s.nodeCount ∧
      ∀ edges, (s.detachNode n).2 = .ok edges →
        (s.detachNode n).1.edgeCount + edges.length = s.edgeCount := by
  rw [Store.detachNode]
  split
  · exact hs.removeEdges _
  · exact ⟨hs, rfl, fun edges eq => by cases eq⟩

theorem Counted.clearNode (hs : s.Counted) {n : NodeId} (live : s.hasNode n = true) :
    Counted { s with nodes := s.nodes.setIfInBounds n.index ⟨none, ∅, ∅⟩
                     nodeCount := s.nodeCount - 1 } ∧ s.nodeCount - 1 + 1 = s.nodeCount := by
  have dropped := length_liveNodes_drop (s := s)
    (t := { s with nodes := s.nodes.setIfInBounds n.index ⟨none, ∅, ∅⟩
                   nodeCount := s.nodeCount - 1 })
    (by simp) live (node?_cleared live rfl)
  have counted := hs.nodes
  exact ⟨⟨by simp only; omega, hs.edges⟩, by omega⟩

theorem Counted.removeNode (hs : s.Counted) (n : NodeId) :
    (s.removeNode n).1.Counted ∧ ∀ node edges, (s.removeNode n).2 = .ok (node, edges) →
      (s.removeNode n).1.nodeCount + 1 = s.nodeCount ∧
        (s.removeNode n).1.edgeCount + edges.length = s.edgeCount := by
  obtain ⟨counted, nodeCount, taken⟩ := hs.detachNode n
  rw [Store.removeNode]
  cases detached : s.detachNode n with
  | mk mid result =>
      rw [detached] at counted nodeCount taken
      cases result with
      | error e => exact ⟨counted, fun node edges eq => by cases eq⟩
      | ok edges =>
          cases found : mid.node? n with
          | none =>
              simp only [found]
              exact ⟨counted, fun node edges eq => by cases eq⟩
          | some node =>
              obtain ⟨cleared, less⟩ := counted.clearNode (hasNode_of_node? found)
              simp only [found]
              refine ⟨cleared, fun node others eq => ?_⟩
              cases eq
              exact ⟨less.trans nodeCount, taken edges rfl⟩

end Counted

end Store

end PropertyGraph
