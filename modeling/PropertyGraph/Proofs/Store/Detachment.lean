import PropertyGraph.Proofs.Store.Operations
import Mathlib.Data.List.Nodup

namespace PropertyGraph

namespace Store

variable {s : Store}

section Incident

theorem count_eq_ite {α : Type} [BEq α] [LawfulBEq α] {l : List α} (nodup : l.Nodup) {a : α}
    {p : Prop} [Decidable p] (mem : a ∈ l ↔ p) : l.count a = if p then 1 else 0 := by
  split
  · rename_i there
    exact List.count_eq_one_of_mem nodup (mem.mpr there)
  · rename_i absent
    exact List.count_eq_zero.mpr fun listed => absent (mem.mp listed)

theorem Sound.mem_outgoing (h : s.Sound) {id : EdgeId} {node : NodeId} :
    id ∈ s.outgoing node ↔ ∃ edge, s.edge? id = some edge ∧ edge.source = node := by
  rw [Store.outgoing, GroupMap.mem_items]
  constructor
  · rintro ⟨type, mem⟩
    obtain ⟨edge, found, source, -⟩ := h.outgoing.mp mem
    exact ⟨edge, found, source⟩
  · rintro ⟨edge, found, source⟩
    exact ⟨edge.type, h.outgoing.mpr ⟨edge, found, source, rfl⟩⟩

theorem Sound.mem_incoming (h : s.Sound) {id : EdgeId} {node : NodeId} :
    id ∈ s.incoming node ↔ ∃ edge, s.edge? id = some edge ∧ edge.target = node := by
  rw [Store.incoming, GroupMap.mem_items]
  constructor
  · rintro ⟨type, mem⟩
    obtain ⟨edge, found, target, -⟩ := h.incoming.mp mem
    exact ⟨edge, found, target⟩
  · rintro ⟨edge, found, target⟩
    exact ⟨edge.type, h.incoming.mpr ⟨edge, found, target, rfl⟩⟩

theorem nodup_flatMap_types {types : List EdgeType} (nodup : types.Nodup)
    {list : EdgeType → List EdgeId} (each : ∀ type, (list type).Nodup)
    (apart : ∀ {id a b}, id ∈ list a → id ∈ list b → a = b) : (types.flatMap list).Nodup := by
  rw [List.nodup_flatMap]
  refine ⟨fun type _ => each type, nodup.imp_of_mem fun {a b} _ _ ne => ?_⟩
  intro id ha hb
  exact ne (apart ha hb)

theorem Sound.outgoing_type_eq (h : s.Sound) {id : EdgeId} {node : NodeId} {a b : EdgeType}
    (ha : id ∈ s.outgoingOf node a) (hb : id ∈ s.outgoingOf node b) : a = b := by
  obtain ⟨edge, found, -, rfl⟩ := h.outgoing.mp ha
  obtain ⟨edge', found', -, rfl⟩ := h.outgoing.mp hb
  rw [found] at found'
  cases found'
  rfl

theorem Sound.incoming_type_eq (h : s.Sound) {id : EdgeId} {node : NodeId} {a b : EdgeType}
    (ha : id ∈ s.incomingOf node a) (hb : id ∈ s.incomingOf node b) : a = b := by
  obtain ⟨edge, found, -, rfl⟩ := h.incoming.mp ha
  obtain ⟨edge', found', -, rfl⟩ := h.incoming.mp hb
  rw [found] at found'
  cases found'
  rfl

theorem Sound.nodup_outgoing (h : s.Sound) (node : NodeId) : (s.outgoing node).Nodup := by
  rw [Store.outgoing, GroupMap.items_eq_flatMap]
  exact nodup_flatMap_types (s.outgoingGroups node).distinct
    (fun type => GroupMap.nodup_itemsAt _ type) h.outgoing_type_eq

theorem Sound.nodup_incoming (h : s.Sound) (node : NodeId) : (s.incoming node).Nodup := by
  rw [Store.incoming, GroupMap.items_eq_flatMap]
  exact nodup_flatMap_types (s.incomingGroups node).distinct
    (fun type => GroupMap.nodup_itemsAt _ type) h.incoming_type_eq

theorem Sound.mem_incident (h : s.Sound) {id : EdgeId} {node : NodeId} :
    id ∈ s.incident node ↔
      ∃ edge, s.edge? id = some edge ∧ (edge.source = node ∨ edge.target = node) := by
  rw [incident, List.mem_append, List.mem_filter, h.mem_outgoing, h.mem_incoming]
  constructor
  · rintro (⟨edge, found, source⟩ | ⟨⟨edge, found, target⟩, -⟩)
    · exact ⟨edge, found, .inl source⟩
    · exact ⟨edge, found, .inr target⟩
  · rintro ⟨edge, found, ends⟩
    by_cases source : edge.source = node
    · exact .inl ⟨edge, found, source⟩
    · have target := ends.resolve_left source
      refine .inr ⟨⟨edge, found, target⟩, ?_⟩
      simp only [found, Option.map_some, Option.getD_some, Edge.isSelfLoop, target,
        beq_eq_false_iff_ne.mpr source, Bool.not_false]

theorem Sound.nodup_incident (h : s.Sound) (node : NodeId) : (s.incident node).Nodup := by
  refine List.nodup_append.mpr ⟨h.nodup_outgoing node, (h.nodup_incoming node).filter _, ?_⟩
  rintro id leaving _ arriving rfl
  obtain ⟨edge, found, source⟩ := h.mem_outgoing.mp leaving
  obtain ⟨arrives, apart⟩ := List.mem_filter.mp arriving
  obtain ⟨edge', found', target⟩ := h.mem_incoming.mp arrives
  rw [found] at found'
  cases found'
  simp [found, Edge.isSelfLoop, source, target] at apart

theorem Sound.groups_of_alone (h : s.Sound) {node : NodeId}
    (alone : ∀ e edge, s.edge? e = some edge → edge.source ≠ node ∧ edge.target ≠ node) :
    s.outgoingGroups node = ∅ ∧ s.incomingGroups node = ∅ := by
  constructor
  · refine GroupMap.eq_empty_of_itemsAt (h.outgoingFilled node) fun type => ?_
    refine List.eq_nil_iff_forall_not_mem.mpr fun e mem => ?_
    obtain ⟨edge, found, source, -⟩ := h.outgoing.mp mem
    exact (alone e edge found).1 source
  · refine GroupMap.eq_empty_of_itemsAt (h.incomingFilled node) fun type => ?_
    refine List.eq_nil_iff_forall_not_mem.mpr fun e mem => ?_
    obtain ⟨edge, found, target, -⟩ := h.incoming.mp mem
    exact (alone e edge found).2 target

theorem Sound.alone_of_records (h : s.Sound) {node : NodeId} {after : Store}
    (records : ∀ e, after.edge? e = if e ∈ s.incident node then none else s.edge? e) (e : EdgeId)
    (edge : Edge) (there : after.edge? e = some edge) :
    edge.source ≠ node ∧ edge.target ≠ node := by
  rw [records] at there
  split at there
  · cases there
  · rename_i apart
    exact ⟨fun source => apart (h.mem_incident.mpr ⟨edge, there, .inl source⟩),
      fun target => apart (h.mem_incident.mpr ⟨edge, there, .inr target⟩)⟩

end Incident

section Detach

theorem Sound.removeEdges (hs : s.Sound) {ids : List EdgeId} (nodup : ids.Nodup)
    (there : ∀ id ∈ ids, s.hasEdge id = true) :
    ∃ after edges, s.removeEdges ids = (after, .ok edges) ∧ after.Sound ∧
      (∀ node, after.node? node = s.node? node) ∧
      (∀ id, after.edge? id = if id ∈ ids then none else s.edge? id) ∧
      edges.map Edge.id = ids ∧ ∀ edge ∈ edges, s.edge? edge.id = some edge := by
  induction ids generalizing s with
  | nil => exact ⟨s, [], rfl, hs, fun _ => rfl, fun _ => rfl, rfl, fun _ h => by cases h⟩
  | cons id rest ih =>
      obtain ⟨absent, nodup_rest⟩ := List.nodup_cons.mp nodup
      obtain ⟨edge, found⟩ := Option.isSome_iff_exists.mp (there id List.mem_cons_self)
      obtain ⟨mid, removed⟩ := exists_removeEdge found
      have edges_mid := edge?_removeEdge removed
      have there_mid : ∀ other ∈ rest, mid.hasEdge other = true := fun other mem => by
        have apart : other ≠ id := fun eq => absent (eq ▸ mem)
        rw [hasEdge, edges_mid, if_neg apart]
        exact there other (List.mem_cons_of_mem _ mem)
      obtain ⟨after, edges, result, sound, nodes, records, ids_eq, each⟩ :=
        ih (hs.removeEdge removed) nodup_rest there_mid
      refine ⟨after, edge :: edges, ?_, sound, ?_, ?_, ?_, ?_⟩
      · simp [Store.removeEdges, removed, result, Except.map]
      · intro node
        rw [nodes, node?_removeEdge removed]
      · intro other
        rw [records, edges_mid]
        by_cases same : other = id
        · simp [same]
        · simp [same]
      · rw [List.map_cons, ids_eq, hs.edgeId found]
      · intro other mem
        rcases List.mem_cons.mp mem with rfl | mem
        · rw [hs.edgeId found, found]
        · have earlier := each other mem
          rw [edges_mid] at earlier
          split at earlier
          · cases earlier
          · exact earlier

theorem Sound.detachNode (hs : s.Sound) {id : NodeId} (live : s.hasNode id = true) :
    ∃ after edges, s.detachNode id = (after, .ok edges) ∧ after.Sound ∧
      (∀ node, after.node? node = s.node? node) ∧
      (∀ e, after.edge? e = if e ∈ s.incident id then none else s.edge? e) ∧
      edges.map Edge.id = s.incident id ∧ ∀ edge ∈ edges, s.edge? edge.id = some edge := by
  have there : ∀ e ∈ s.incident id, s.hasEdge e = true := fun e mem => by
    obtain ⟨edge, found, -⟩ := hs.mem_incident.mp mem
    exact Option.isSome_iff_exists.mpr ⟨edge, found⟩
  rw [Store.detachNode, if_pos live]
  exact hs.removeEdges (hs.nodup_incident id) there

theorem detachNode_of_dead {id : NodeId} (dead : s.hasNode id = false) :
    s.detachNode id = (s, .error (.nodeNotFound id)) := by
  rw [Store.detachNode, dead]
  rfl

section ClearNode

variable {id : NodeId} {after : Store}

theorem getElem?_cleared (live : s.hasNode id = true)
    (nodes : after.nodes = s.nodes.setIfInBounds id.index ⟨none, ∅, ∅⟩) (node : NodeId) :
    after.nodes[node.index]? = if node = id then some ⟨none, ∅, ∅⟩ else s.nodes[node.index]? := by
  have bound := index_lt_of_hasNode live
  rw [nodes, Array.getElem?_setIfInBounds]
  by_cases same : node = id
  · simp [same, bound]
  · have apart : id.index ≠ node.index := fun eq => same (nodeId_eq_of_index eq.symm)
    simp [same, apart]

theorem node?_cleared (live : s.hasNode id = true)
    (nodes : after.nodes = s.nodes.setIfInBounds id.index ⟨none, ∅, ∅⟩) (node : NodeId) :
    after.node? node = if node = id then none else s.node? node := by
  rw [node?, getElem?_cleared live nodes]
  split <;> rfl

theorem outgoingGroups_cleared (live : s.hasNode id = true)
    (nodes : after.nodes = s.nodes.setIfInBounds id.index ⟨none, ∅, ∅⟩) (node : NodeId) :
    after.outgoingGroups node = if node = id then ∅ else s.outgoingGroups node := by
  rw [outgoingGroups, getElem?_cleared live nodes]
  split <;> rfl

theorem incomingGroups_cleared (live : s.hasNode id = true)
    (nodes : after.nodes = s.nodes.setIfInBounds id.index ⟨none, ∅, ∅⟩) (node : NodeId) :
    after.incomingGroups node = if node = id then ∅ else s.incomingGroups node := by
  rw [incomingGroups, getElem?_cleared live nodes]
  split <;> rfl

theorem Sound.cleared (hs : s.Sound) (live : s.hasNode id = true)
    (alone : ∀ e edge, s.edge? e = some edge → edge.source ≠ id ∧ edge.target ≠ id)
    (nodes : after.nodes = s.nodes.setIfInBounds id.index ⟨none, ∅, ∅⟩)
    (edges : after.edges = s.edges) : after.Sound := by
  have same_edges : ∀ e, after.edge? e = s.edge? e := fun e => by rw [edge?, edges, edge?]
  have records := node?_cleared live nodes
  have out := outgoingGroups_cleared live nodes
  have inc := incomingGroups_cleared live nodes
  refine ⟨?_, ?_, ?_, ?_, ?_, ?_, ?_, ?_⟩
  · intro node record there
    rw [records] at there
    split at there
    · cases there
    · exact hs.nodeId there
  · intro e edge there
    exact hs.edgeId (same_edges e ▸ there)
  · intro e edge there
    rw [same_edges] at there
    rw [hasNode, records, if_neg (alone e edge there).1]
    exact hs.sourceLive there
  · intro e edge there
    rw [same_edges] at there
    rw [hasNode, records, if_neg (alone e edge there).2]
    exact hs.targetLive there
  · intro e node type
    rw [outgoingOf, out, same_edges]
    split
    · rename_i same
      rw [GroupMap.itemsAt_empty]
      refine ⟨fun h => (List.not_mem_nil h).elim, ?_⟩
      rintro ⟨edge, there, source, -⟩
      exact absurd (source.trans same) (alone e edge there).1
    · exact hs.outgoing
  · intro e node type
    rw [incomingOf, inc, same_edges]
    split
    · rename_i same
      rw [GroupMap.itemsAt_empty]
      refine ⟨fun h => (List.not_mem_nil h).elim, ?_⟩
      rintro ⟨edge, there, target, -⟩
      exact absurd (target.trans same) (alone e edge there).2
    · exact hs.incoming
  · intro node
    rw [out]
    split
    · exact GroupMap.filled_empty
    · exact hs.outgoingFilled node
  · intro node
    rw [inc]
    split
    · exact GroupMap.filled_empty
    · exact hs.incomingFilled node

end ClearNode

theorem Sound.removeNode (hs : s.Sound) {id : NodeId} {node : Node}
    (live : s.node? id = some node) :
    ∃ after edges, s.removeNode id = (after, .ok (node, edges)) ∧ after.Sound ∧
      (∀ other, after.node? other = if other = id then none else s.node? other) ∧
      (∀ e, after.edge? e = if e ∈ s.incident id then none else s.edge? e) ∧
      edges.map Edge.id = s.incident id ∧ ∀ edge ∈ edges, s.edge? edge.id = some edge := by
  obtain ⟨mid, edges, detached, sound, nodes, records, ids, each⟩ :=
    hs.detachNode (hasNode_of_node? live)
  have live_mid : mid.node? id = some node := (nodes id).trans live
  have alone := hs.alone_of_records records
  let cleared : Store :=
    { mid with nodes := mid.nodes.setIfInBounds id.index ⟨none, ∅, ∅⟩
               nodeCount := mid.nodeCount - 1 }
  have live_mid' := hasNode_of_node? live_mid
  have slots : cleared.nodes = mid.nodes.setIfInBounds id.index ⟨none, ∅, ∅⟩ := rfl
  have sound' := sound.cleared live_mid' alone slots rfl
  refine ⟨cleared, edges, ?_, sound', fun other => ?_, records, ids, each⟩
  · simp only [Store.removeNode, detached, live_mid]
    rfl
  · rw [node?_cleared live_mid' slots, nodes]

theorem removeNode_of_dead {id : NodeId} (dead : s.node? id = none) :
    s.removeNode id = (s, .error (.nodeNotFound id)) := by
  rw [Store.removeNode, detachNode_of_dead (by simp [hasNode, dead])]

end Detach

end Store

end PropertyGraph
