import PropertyGraph.Proofs.Store.Counts

namespace PropertyGraph

namespace Store

variable {s after : Store}

section Lists

variable {id : EdgeId} {edge : Edge}

theorem items_erasedAt {groups : GroupMap EdgeType EdgeId} {node other : NodeId} {type : EdgeType}
    (only : ∀ l, id ∈ groups.itemsAt l → node = other ∧ l = type) :
    (if node = other then groups.eraseAt type id else groups).items =
      groups.items.filter (· ≠ id) := by
  split
  · exact GroupMap.items_eraseAt fun l mem => (only l mem).2
  · rename_i apart
    refine (List.filter_eq_self.mpr fun e mem => ?_).symm
    refine decide_eq_true fun same : e = id => apart ?_
    obtain ⟨l, listed⟩ := GroupMap.mem_items.mp (same ▸ mem)
    exact (only l listed).1

theorem Sound.outgoing_removeEdge (hs : s.Sound) (removed : s.removeEdge id = .ok (after, edge))
    (node : NodeId) : after.outgoing node = (s.outgoing node).filter (· ≠ id) := by
  obtain ⟨found, slots, -⟩ := removeEdge_eq_ok removed
  have source_in := index_lt_of_hasNode (hs.sourceLive found)
  rw [Store.outgoing, (congr_of_nodes slots).2.1, unlink_eq_rewire, outgoingGroups_rewire _ source_in]
  refine items_erasedAt fun type mem => ?_
  obtain ⟨listed, there, source, typed⟩ := hs.outgoing.mp mem
  cases found.symm.trans there
  exact ⟨source.symm, typed.symm⟩

theorem Sound.incoming_removeEdge (hs : s.Sound) (removed : s.removeEdge id = .ok (after, edge))
    (node : NodeId) : after.incoming node = (s.incoming node).filter (· ≠ id) := by
  obtain ⟨found, slots, -⟩ := removeEdge_eq_ok removed
  have target_in := index_lt_of_hasNode (hs.targetLive found)
  rw [Store.incoming, (congr_of_nodes slots).2.2, unlink_eq_rewire, incomingGroups_rewire _ target_in]
  refine items_erasedAt fun type mem => ?_
  obtain ⟨listed, there, target, typed⟩ := hs.incoming.mp mem
  cases found.symm.trans there
  exact ⟨target.symm, typed.symm⟩

theorem filter_not_mem_cons (list : List EdgeId) (id : EdgeId) (rest : List EdgeId) :
    (list.filter (· ≠ id)).filter (· ∉ rest) = list.filter (· ∉ id :: rest) := by
  rw [List.filter_filter]
  refine List.filter_congr fun e _ => ?_
  by_cases same : e = id <;> simp [same]

theorem removeEdges_cons_eq_ok {rest : List EdgeId} {edges : List Edge}
    (removed : s.removeEdges (id :: rest) = (after, .ok edges)) :
    ∃ mid edge others, s.removeEdge id = .ok (mid, edge) ∧
      mid.removeEdges rest = (after, .ok others) ∧ edge :: others = edges := by
  rw [Store.removeEdges] at removed
  cases first : s.removeEdge id with
  | error e => simp [first] at removed
  | ok result =>
      obtain ⟨mid, edge⟩ := result
      simp only [first, Prod.mk.injEq] at removed
      obtain ⟨same, results⟩ := removed
      obtain ⟨others, later, all⟩ := exists_of_map_eq_ok results
      exact ⟨mid, edge, others, rfl, Prod.ext same later, all⟩

theorem Sound.lists_removeEdges (hs : s.Sound) {ids : List EdgeId} {edges : List Edge}
    (removed : s.removeEdges ids = (after, .ok edges)) (node : NodeId) :
    after.outgoing node = (s.outgoing node).filter (· ∉ ids) ∧
      after.incoming node = (s.incoming node).filter (· ∉ ids) := by
  induction ids generalizing s edges with
  | nil =>
      cases removed
      simp
  | cons id rest ih =>
      obtain ⟨mid, edge, others, first, later, -⟩ := removeEdges_cons_eq_ok removed
      obtain ⟨out, inc⟩ := ih (hs.removeEdge first) later
      rw [out, inc, hs.outgoing_removeEdge first, hs.incoming_removeEdge first]
      exact ⟨filter_not_mem_cons _ _ _, filter_not_mem_cons _ _ _⟩

end Lists

section Taken

theorem filterMap_ids {edges : List Edge} (each : ∀ edge ∈ edges, s.edge? edge.id = some edge) :
    (edges.map Edge.id).filterMap s.edge? = edges := by
  rw [List.filterMap_map]
  calc edges.filterMap (s.edge? ∘ Edge.id)
      = edges.filterMap some := List.filterMap_congr each
    _ = edges := List.filterMap_some

theorem filterMap_incident (s : Store) (node : NodeId) :
    (s.incident node).filterMap s.edge? =
      (s.outgoing node).filterMap s.edge? ++
        ((s.incoming node).filterMap s.edge?).filter fun edge => !edge.isSelfLoop := by
  rw [incident, List.filterMap_append, List.filterMap_filter, List.filter_filterMap]
  congr 1
  refine List.filterMap_congr fun id _ => ?_
  cases s.edge? id with
  | none => rfl
  | some edge => cases loop : edge.isSelfLoop <;> simp [Option.filter, loop]

end Taken

structure Detached (s : Store) (node : NodeId) (edges : List Edge) (after : Store) : Prop where
  taken : edges = (s.outgoing node).filterMap s.edge? ++
    ((s.incoming node).filterMap s.edge?).filter fun edge => !edge.isSelfLoop
  once : ∀ edge, edges.count edge =
    if s.edge? edge.id = some edge ∧ (edge.source = node ∨ edge.target = node) then 1 else 0
  alone : after.outgoingGroups node = ∅ ∧ after.incomingGroups node = ∅
  outgoing : ∀ other,
    after.outgoing other = (s.outgoing other).filter (· ∉ edges.map Edge.id)
  incoming : ∀ other,
    after.incoming other = (s.incoming other).filter (· ∉ edges.map Edge.id)
  edgeCount : after.edgeCount + edges.length = s.edgeCount
  records : ∀ e, after.edge? e = if e ∈ edges.map Edge.id then none else s.edge? e

section Detach

variable {node : NodeId}

theorem Detached.of_removed (hs : s.Sound) (counted : s.Counted) (sound : after.Sound)
    {edges : List Edge} (detached : s.detachNode node = (after, .ok edges))
    (records : ∀ e, after.edge? e = if e ∈ s.incident node then none else s.edge? e)
    (ids : edges.map Edge.id = s.incident node)
    (each : ∀ edge ∈ edges, s.edge? edge.id = some edge) : s.Detached node edges after := by
  have removed : s.removeEdges (s.incident node) = (after, .ok edges) := by
    rw [Store.detachNode] at detached
    split at detached
    · exact detached
    · cases detached
  have lists := hs.lists_removeEdges removed
  have taken := (counted.detachNode node).2.2 edges
  rw [detached] at taken
  refine ⟨?_, fun edge => ?_, sound.groups_of_alone (hs.alone_of_records records), ?_, ?_,
    taken rfl, ?_⟩
  · rw [← filterMap_incident, ← ids, filterMap_ids each]
  · have distinct : edges.Nodup := List.Nodup.of_map Edge.id (ids ▸ hs.nodup_incident node)
    refine count_eq_ite distinct ⟨fun mem => ?_, ?_⟩
    · have listed : edge.id ∈ s.incident node := ids ▸ List.mem_map_of_mem mem
      obtain ⟨other, found, ends⟩ := hs.mem_incident.mp listed
      rw [each edge mem] at found
      cases found
      exact ⟨each edge mem, ends⟩
    · rintro ⟨found, ends⟩
      have listed := hs.mem_incident.mpr ⟨edge, found, ends⟩
      obtain ⟨other, mem, same⟩ := List.mem_map.mp (ids ▸ listed)
      have there := each other mem
      rw [same, found] at there
      cases there
      exact mem
  · exact fun other => ids ▸ (lists other).1
  · exact fun other => ids ▸ (lists other).2
  · exact fun e => ids ▸ records e

theorem Sound.detaches (hs : s.Sound) (counted : s.Counted) (live : s.hasNode node = true) :
    ∃ after edges, s.detachNode node = (after, .ok edges) ∧ s.Detached node edges after ∧
      (∀ other, after.node? other = s.node? other) ∧ after.nodeCount = s.nodeCount := by
  obtain ⟨after, edges, detached, sound, nodes, records, ids, each⟩ := hs.detachNode live
  have nodeCount := (counted.detachNode node).2.1
  rw [detached] at nodeCount
  exact ⟨after, edges, detached, .of_removed hs counted sound detached records ids each, nodes,
    nodeCount⟩

theorem Detached.cleared {mid : Store} {edges : List Edge} (detached : s.Detached node edges mid)
    (live : mid.hasNode node = true)
    (nodes : after.nodes = mid.nodes.setIfInBounds node.index ⟨none, ∅, ∅⟩)
    (records : after.edges = mid.edges) (count : after.edgeCount = mid.edgeCount) :
    s.Detached node edges after := by
  have out (other : NodeId) : after.outgoingGroups other = mid.outgoingGroups other := by
    rw [outgoingGroups_cleared live nodes]
    split
    · rename_i same
      rw [same, detached.alone.1]
    · rfl
  have inc (other : NodeId) : after.incomingGroups other = mid.incomingGroups other := by
    rw [incomingGroups_cleared live nodes]
    split
    · rename_i same
      rw [same, detached.alone.2]
    · rfl
  refine ⟨detached.taken, detached.once, ?_, fun other => ?_, fun other => ?_, ?_, fun e => ?_⟩
  · rw [out, inc]
    exact detached.alone
  · rw [Store.outgoing, out]
    exact detached.outgoing other
  · rw [Store.incoming, inc]
    exact detached.incoming other
  · rw [count, detached.edgeCount]
  · rw [edge?, records]
    exact detached.records e

theorem Sound.removes (hs : s.Sound) (counted : s.Counted) {record : Node}
    (live : s.node? node = some record) :
    ∃ after edges, s.removeNode node = (after, .ok (record, edges)) ∧
      s.Detached node edges after ∧
      (∀ other, after.node? other = if other = node then none else s.node? other) ∧
      after.nodeCount + 1 = s.nodeCount := by
  obtain ⟨mid, edges, detached, parts, nodes, nodeCount⟩ :=
    hs.detaches counted (hasNode_of_node? live)
  have live_mid : mid.node? node = some record := (nodes node).trans live
  let cleared : Store :=
    { mid with nodes := mid.nodes.setIfInBounds node.index ⟨none, ∅, ∅⟩
               nodeCount := mid.nodeCount - 1 }
  have removed : s.removeNode node = (cleared, .ok (record, edges)) := by
    simp only [Store.removeNode, detached, live_mid]
    rfl
  have taken := ((counted.removeNode node).2 record edges (by rw [removed])).1
  rw [removed] at taken
  refine ⟨cleared, edges, removed, parts.cleared (hasNode_of_node? live_mid) rfl rfl rfl,
    fun other => ?_, taken⟩
  rw [node?_cleared (hasNode_of_node? live_mid) rfl, nodes]

end Detach

end Store

end PropertyGraph
