import PropertyGraph.Proofs.Store.Integrity

namespace PropertyGraph

theorem exists_of_map_eq_ok {ε α β : Type} {result : Except ε α} {f : α → β} {b : β}
    (mapped : result.map f = .ok b) : ∃ a, result = .ok a ∧ f a = b := by
  cases result with
  | error e => cases mapped
  | ok a => exact ⟨a, rfl, Except.ok.inj mapped⟩

namespace Store

variable {s : Store}

theorem nodeId_eq_of_index {a b : NodeId} (h : a.index = b.index) : a = b := by
  cases a; cases b
  exact congrArg NodeId.mk h

theorem edgeId_eq_of_index {a b : EdgeId} (h : a.index = b.index) : a = b := by
  cases a; cases b
  exact congrArg EdgeId.mk h

theorem congr_of_nodes {t : Store} (h : s.nodes = t.nodes) :
    s.node? = t.node? ∧ s.outgoingGroups = t.outgoingGroups ∧
      s.incomingGroups = t.incomingGroups := by
  refine ⟨?_, ?_, ?_⟩ <;> funext id
  · rw [node?, h, node?]
  · rw [outgoingGroups, h, outgoingGroups]
  · rw [incomingGroups, h, incomingGroups]

section AddNode

variable (s) (labels : LabelSet) (properties : Properties)

theorem node?_addNode (id : NodeId) :
    (s.addNode labels properties).1.node? id =
      if id = (s.addNode labels properties).2 then
        some ⟨(s.addNode labels properties).2, labels, properties⟩
      else s.node? id := by
  by_cases fresh : id.index = s.nodes.size
  · have same : id = ⟨s.nodes.size⟩ := nodeId_eq_of_index fresh
    simp [addNode, node?, same]
  · have apart : id ≠ ⟨s.nodes.size⟩ := fun eq => fresh (congrArg NodeId.index eq)
    simp [addNode, node?, Array.getElem?_push, fresh, apart]

theorem node?_fresh : s.node? (s.addNode labels properties).2 = none := by
  simp [addNode, node?]

theorem outgoingGroups_addNode (id : NodeId) :
    (s.addNode labels properties).1.outgoingGroups id = s.outgoingGroups id := by
  by_cases fresh : id.index = s.nodes.size
  · simp [addNode, outgoingGroups, fresh]
  · simp [addNode, outgoingGroups, Array.getElem?_push, fresh]

theorem incomingGroups_addNode (id : NodeId) :
    (s.addNode labels properties).1.incomingGroups id = s.incomingGroups id := by
  by_cases fresh : id.index = s.nodes.size
  · simp [addNode, incomingGroups, fresh]
  · simp [addNode, incomingGroups, Array.getElem?_push, fresh]

variable {s}

theorem hasNode_addNode {id : NodeId} (h : s.hasNode id = true) :
    (s.addNode labels properties).1.hasNode id = true := by
  rw [hasNode, node?_addNode]
  split
  · rfl
  · exact h

theorem Sound.addNode (h : s.Sound) : (s.addNode labels properties).1.Sound where
  nodeId {id node} found := by
    rw [node?_addNode] at found
    split at found
    · cases found
      exact Eq.symm ‹_›
    · exact h.nodeId found
  edgeId := h.edgeId
  sourceLive found := hasNode_addNode _ _ (h.sourceLive found)
  targetLive found := hasNode_addNode _ _ (h.targetLive found)
  outgoing := by
    intro id node type
    rw [outgoingOf, outgoingGroups_addNode]
    exact h.outgoing
  incoming := by
    intro id node type
    rw [incomingOf, incomingGroups_addNode]
    exact h.incoming
  outgoingFilled node := by
    rw [outgoingGroups_addNode]
    exact h.outgoingFilled node
  incomingFilled node := by
    rw [incomingGroups_addNode]
    exact h.incomingFilled node

end AddNode

section SetNode

variable {id : NodeId} {node : Node}

theorem node?_setNode (live : s.hasNode id = true) (node : Node) (other : NodeId) :
    (s.setNode id node).node? other = if other = id then some node else s.node? other := by
  have bound := index_lt_of_hasNode live
  rw [setNode, node?, Array.getElem?_modify]
  by_cases same : other = id
  · simp [same, bound]
  · have apart : id.index ≠ other.index := fun eq => same (nodeId_eq_of_index eq.symm)
    simp [same, apart, node?]

theorem outgoingGroups_setNode (s : Store) (id : NodeId) (node : Node) (other : NodeId) :
    (s.setNode id node).outgoingGroups other = s.outgoingGroups other := by
  rw [setNode, outgoingGroups, Array.getElem?_modify, outgoingGroups]
  split <;> cases s.nodes[other.index]? <;> rfl

theorem incomingGroups_setNode (s : Store) (id : NodeId) (node : Node) (other : NodeId) :
    (s.setNode id node).incomingGroups other = s.incomingGroups other := by
  rw [setNode, incomingGroups, Array.getElem?_modify, incomingGroups]
  split <;> cases s.nodes[other.index]? <;> rfl

theorem hasNode_setNode (live : s.hasNode id = true) (node : Node) (other : NodeId) :
    (s.setNode id node).hasNode other = s.hasNode other := by
  rw [hasNode, node?_setNode live]
  split
  · rename_i same
    rw [same, live]
    rfl
  · rfl

theorem Sound.setNode (h : s.Sound) (live : s.hasNode id = true) (same : node.id = id) :
    (s.setNode id node).Sound where
  nodeId {other record} found := by
    rw [node?_setNode live] at found
    split at found
    · cases found
      rw [same]
      exact Eq.symm ‹_›
    · exact h.nodeId found
  edgeId := h.edgeId
  sourceLive found := by
    rw [hasNode_setNode live]
    exact h.sourceLive found
  targetLive found := by
    rw [hasNode_setNode live]
    exact h.targetLive found
  outgoing := by
    intro e n type
    rw [outgoingOf, outgoingGroups_setNode]
    exact h.outgoing
  incoming := by
    intro e n type
    rw [incomingOf, incomingGroups_setNode]
    exact h.incoming
  outgoingFilled n := by
    rw [outgoingGroups_setNode]
    exact h.outgoingFilled n
  incomingFilled n := by
    rw [incomingGroups_setNode]
    exact h.incomingFilled n

end SetNode

section SetEdge

variable {id : EdgeId} {old edge : Edge}

theorem edge?_setEdge (found : s.edge? id = some old) (edge : Edge) (other : EdgeId) :
    (s.setEdge id edge).edge? other = if other = id then some edge else s.edge? other :=
  edge?_setIfInBounds found (some edge) other

theorem exists_edge?_setEdge (found : s.edge? id = some old) {p : Edge → Prop}
    (same : p edge ↔ p old) (other : EdgeId) :
    (∃ e, (s.setEdge id edge).edge? other = some e ∧ p e) ↔ ∃ e, s.edge? other = some e ∧ p e := by
  rw [edge?_setEdge found]
  split
  · rename_i eq
    subst eq
    simp [found, same]
  · rfl

theorem Sound.setEdge (h : s.Sound) (found : s.edge? id = some old) (sameId : edge.id = id)
    (source : edge.source = old.source) (target : edge.target = old.target)
    (type : edge.type = old.type) : (s.setEdge id edge).Sound where
  nodeId := h.nodeId
  edgeId {other record} there := by
    rw [edge?_setEdge found] at there
    split at there
    · cases there
      rw [sameId]
      exact Eq.symm ‹_›
    · exact h.edgeId there
  sourceLive there := by
    rw [edge?_setEdge found] at there
    split at there
    · cases there
      rw [source]
      exact h.sourceLive found
    · exact h.sourceLive there
  targetLive there := by
    rw [edge?_setEdge found] at there
    split at there
    · cases there
      rw [target]
      exact h.targetLive found
    · exact h.targetLive there
  outgoing := by
    intro e n t
    refine h.outgoing.trans (exists_edge?_setEdge found ?_ e).symm
    rw [source, type]
  incoming := by
    intro e n t
    refine h.incoming.trans (exists_edge?_setEdge found ?_ e).symm
    rw [target, type]
  outgoingFilled := h.outgoingFilled
  incomingFilled := h.incomingFilled

end SetEdge

section EdgeSlot

variable {id : EdgeId} {record : Option Edge} {after : Store}

theorem Sound.of_edgeSlot (hs : s.Sound) (nodes : ∀ node, after.node? node = s.node? node)
    (edges : ∀ e, after.edge? e = if e = id then record else s.edge? e)
    (ends : ∀ edge, record = some edge →
      edge.id = id ∧ s.hasNode edge.source = true ∧ s.hasNode edge.target = true)
    (outgoing : ∀ e node t, e ∈ after.outgoingOf node t ↔
      if e = id then ∃ edge, record = some edge ∧ edge.source = node ∧ edge.type = t
      else e ∈ s.outgoingOf node t)
    (incoming : ∀ e node t, e ∈ after.incomingOf node t ↔
      if e = id then ∃ edge, record = some edge ∧ edge.target = node ∧ edge.type = t
      else e ∈ s.incomingOf node t)
    (filled : (∀ node, (after.outgoingGroups node).Filled) ∧
      ∀ node, (after.incomingGroups node).Filled) : after.Sound := by
  have live : ∀ node, after.hasNode node = s.hasNode node := fun node => by
    rw [hasNode, nodes, hasNode]
  have found {e : EdgeId} {edge : Edge} (there : after.edge? e = some edge) :
      (e = id ∧ record = some edge) ∨ s.edge? e = some edge := by
    rw [edges] at there
    split at there
    · exact .inl ⟨‹_›, there⟩
    · exact .inr there
  refine ⟨?_, ?_, ?_, ?_, ?_, ?_, filled.1, filled.2⟩
  · intro node value there
    exact hs.nodeId (nodes node ▸ there)
  · intro e edge there
    rcases found there with ⟨rfl, is_record⟩ | there
    · exact (ends edge is_record).1
    · exact hs.edgeId there
  · intro e edge there
    rw [live]
    rcases found there with ⟨rfl, is_record⟩ | there
    · exact (ends edge is_record).2.1
    · exact hs.sourceLive there
  · intro e edge there
    rw [live]
    rcases found there with ⟨rfl, is_record⟩ | there
    · exact (ends edge is_record).2.2
    · exact hs.targetLive there
  · intro e node t
    rw [outgoing, edges]
    split
    · rfl
    · exact hs.outgoing
  · intro e node t
    rw [incoming, edges]
    split
    · rfl
    · exact hs.incoming

theorem Sound.not_mem_outgoingOf (hs : s.Sound) (absent : s.edge? id = none) (node : NodeId)
    (t : EdgeType) : id ∉ s.outgoingOf node t := fun mem => by
  obtain ⟨edge, found, -⟩ := hs.outgoing.mp mem
  rw [absent] at found
  cases found

theorem Sound.not_mem_incomingOf (hs : s.Sound) (absent : s.edge? id = none) (node : NodeId)
    (t : EdgeType) : id ∉ s.incomingOf node t := fun mem => by
  obtain ⟨edge, found, -⟩ := hs.incoming.mp mem
  rw [absent] at found
  cases found

end EdgeSlot

section AddEdge

variable {source target : NodeId} {type : EdgeType} {properties : Properties}
variable {after : Store} {id : EdgeId}

theorem addEdge_eq_ok (h : s.addEdge source target type properties = .ok (after, id)) :
    s.hasNode source = true ∧ s.hasNode target = true ∧ id.index = s.edges.size ∧
      after.nodes = (s.link source target type id).nodes ∧
      after.edges = s.edges.push (some ⟨id, source, target, type, properties⟩) := by
  unfold addEdge at h
  split at h
  · cases h
  · rename_i source_live
    split at h
    · cases h
    · rename_i target_live
      simp only [Except.ok.injEq, Prod.mk.injEq] at h
      obtain ⟨rfl, rfl⟩ := h
      exact ⟨by simpa using source_live, by simpa using target_live, rfl, rfl, rfl⟩

theorem edge?_eq_none_of_size {id : EdgeId} (h : id.index = s.edges.size) : s.edge? id = none := by
  simp [edge?, h]

theorem edge?_addEdge (h : s.addEdge source target type properties = .ok (after, id))
    (other : EdgeId) : after.edge? other =
      if other = id then some ⟨id, source, target, type, properties⟩ else s.edge? other := by
  obtain ⟨-, -, fresh, -, edges⟩ := addEdge_eq_ok h
  rw [edge?, edges, edge?_push]
  by_cases same : other = id
  · rw [if_pos same, same, if_pos fresh]
  · rw [if_neg same, if_neg fun eq => same (edgeId_eq_of_index (eq.trans fresh.symm))]

theorem node?_addEdge (h : s.addEdge source target type properties = .ok (after, id))
    (node : NodeId) : after.node? node = s.node? node := by
  obtain ⟨-, -, -, nodes, -⟩ := addEdge_eq_ok h
  rw [(congr_of_nodes nodes).1, link_eq_rewire, node?_rewire]

theorem Sound.addEdge (hs : s.Sound)
    (h : s.addEdge source target type properties = .ok (after, id)) : after.Sound := by
  obtain ⟨source_live, target_live, fresh, slots, -⟩ := addEdge_eq_ok h
  have source_in := index_lt_of_hasNode source_live
  have target_in := index_lt_of_hasNode target_live
  have absent := edge?_eq_none_of_size fresh
  obtain ⟨-, out, inc⟩ := congr_of_nodes slots
  have filled := filled_rewire (s := s) (·.insertAt type id)
    (fun m hm => GroupMap.filled_insertAt hm type _) source_in target_in hs.outgoingFilled
    hs.incomingFilled
  refine hs.of_edgeSlot (node?_addEdge h) (edge?_addEdge h) ?_ ?_ ?_ ?_
  · intro edge eq
    cases eq
    exact ⟨rfl, source_live, target_live⟩
  · intro e node t
    rw [outgoingOf, out, ← outgoingOf, mem_outgoingOf_link source_in]
    by_cases same : e = id
    · simp [same, hs.not_mem_outgoingOf absent, eq_comm]
    · simp [same]
  · intro e node t
    rw [incomingOf, inc, ← incomingOf, mem_incomingOf_link target_in]
    by_cases same : e = id
    · simp [same, hs.not_mem_incomingOf absent, eq_comm]
    · simp [same]
  · simp only [out, inc]
    exact filled

end AddEdge

section RemoveEdge

variable {id : EdgeId} {edge : Edge} {after : Store}

theorem removeEdge_eq_ok (h : s.removeEdge id = .ok (after, edge)) :
    s.edge? id = some edge ∧
      after.nodes = (s.unlink edge.source edge.target edge.type id).nodes ∧
      after.edges = s.edges.setIfInBounds id.index none := by
  unfold removeEdge at h
  split at h
  · cases h
  · rename_i found
    cases h
    exact ⟨found, rfl, rfl⟩

theorem exists_removeEdge (h : s.edge? id = some edge) :
    ∃ after, s.removeEdge id = .ok (after, edge) := by
  simp [removeEdge, h]

theorem edge?_removeEdge (h : s.removeEdge id = .ok (after, edge)) (other : EdgeId) :
    after.edge? other = if other = id then none else s.edge? other := by
  obtain ⟨found, -, edges⟩ := removeEdge_eq_ok h
  rw [edge?, edges]
  exact edge?_setIfInBounds found none other

theorem node?_removeEdge (h : s.removeEdge id = .ok (after, edge)) (node : NodeId) :
    after.node? node = s.node? node := by
  obtain ⟨-, nodes, -⟩ := removeEdge_eq_ok h
  rw [(congr_of_nodes nodes).1, unlink_eq_rewire, node?_rewire]

theorem Sound.removeEdge (hs : s.Sound) (h : s.removeEdge id = .ok (after, edge)) :
    after.Sound := by
  obtain ⟨found, slots, -⟩ := removeEdge_eq_ok h
  have source_in := index_lt_of_hasNode (hs.sourceLive found)
  have target_in := index_lt_of_hasNode (hs.targetLive found)
  obtain ⟨-, out, inc⟩ := congr_of_nodes slots
  have filled := filled_rewire (s := s) (·.eraseAt edge.type id)
    (fun m hm => GroupMap.filled_eraseAt hm edge.type _) source_in target_in hs.outgoingFilled
    hs.incomingFilled
  refine hs.of_edgeSlot (node?_removeEdge h) (edge?_removeEdge h) ?_ ?_ ?_ ?_
  · intro other eq
    cases eq
  · intro e node t
    rw [outgoingOf, out, ← outgoingOf, mem_outgoingOf_unlink source_in]
    by_cases same : e = id
    · simpa [same, hs.outgoing, found] using fun a b => And.intro a.symm b.symm
    · simp [same]
  · intro e node t
    rw [incomingOf, inc, ← incomingOf, mem_incomingOf_unlink target_in]
    by_cases same : e = id
    · simpa [same, hs.incoming, found] using fun a b => And.intro a.symm b.symm
    · simp [same]
  · simp only [out, inc]
    exact filled

end RemoveEdge

section RetypeEdge

variable {id : EdgeId} {type old : EdgeType} {after : Store}

theorem retypeEdge_eq_ok (h : s.retypeEdge id type = .ok (after, old)) :
    ∃ edge, s.edge? id = some edge ∧ old = edge.type ∧
      after.nodes = ((s.unlink edge.source edge.target edge.type id).link
        edge.source edge.target type id).nodes ∧
      after.edges = s.edges.setIfInBounds id.index (some { edge with type }) := by
  unfold retypeEdge at h
  split at h
  · cases h
  · rename_i edge found
    simp only [setEdge, Except.ok.injEq, Prod.mk.injEq] at h
    obtain ⟨rfl, rfl⟩ := h
    exact ⟨edge, found, rfl, by rw [link_eq_rewire], by rw [link_eq_rewire]; rfl⟩

theorem Sound.retypeEdge (hs : s.Sound) (h : s.retypeEdge id type = .ok (after, old)) :
    after.Sound ∧ (∀ node, after.node? node = s.node? node) ∧
      ∃ edge, s.edge? id = some edge ∧ old = edge.type ∧ ∀ other, after.edge? other =
        if other = id then some { edge with type } else s.edge? other := by
  obtain ⟨edge, found, rfl, slots, records⟩ := retypeEdge_eq_ok h
  have source_in := index_lt_of_hasNode (hs.sourceLive found)
  have target_in := index_lt_of_hasNode (hs.targetLive found)
  have size : (s.unlink edge.source edge.target edge.type id).nodes.size = s.nodes.size := by
    rw [unlink_eq_rewire, size_rewire]
  have source_in' := size ▸ source_in
  have target_in' := size ▸ target_in
  obtain ⟨nodes, out, inc⟩ := congr_of_nodes slots
  have nodes : ∀ node, after.node? node = s.node? node := fun node => by
    rw [nodes, link_eq_rewire, node?_rewire, unlink_eq_rewire, node?_rewire]
  have edges : ∀ other, after.edge? other =
      if other = id then some { edge with type } else s.edge? other := fun other => by
    rw [edge?, records]
    exact edge?_setIfInBounds found _ other
  have unlinked := filled_rewire (s := s) (·.eraseAt edge.type id)
    (fun m hm => GroupMap.filled_eraseAt hm edge.type _) source_in target_in hs.outgoingFilled
    hs.incomingFilled
  have linked := filled_rewire (s := s.unlink edge.source edge.target edge.type id)
    (·.insertAt type id) (fun m hm => GroupMap.filled_insertAt hm type _) source_in' target_in'
    unlinked.1 unlinked.2
  refine ⟨hs.of_edgeSlot nodes edges ?_ ?_ ?_ ?_, nodes, edge, found, rfl, edges⟩
  · intro other eq
    cases eq
    exact ⟨(hs.edgeId found :), (hs.sourceLive found :), (hs.targetLive found :)⟩
  · intro e node t
    rw [outgoingOf, out, ← outgoingOf, mem_outgoingOf_link source_in',
      mem_outgoingOf_unlink source_in]
    by_cases same : e = id
    · simp only [same, hs.outgoing, found, Option.some.injEq, exists_eq_left', and_true, if_true]
      constructor
      · rintro (⟨rfl, rfl⟩ | ⟨⟨rfl, rfl⟩, other⟩)
        · exact ⟨rfl, rfl⟩
        · exact absurd ⟨rfl, rfl⟩ other
      · rintro ⟨rfl, rfl⟩
        exact .inl ⟨rfl, rfl⟩
    · simp [same]
  · intro e node t
    rw [incomingOf, inc, ← incomingOf, mem_incomingOf_link target_in',
      mem_incomingOf_unlink target_in]
    by_cases same : e = id
    · simp only [same, hs.incoming, found, Option.some.injEq, exists_eq_left', and_true, if_true]
      constructor
      · rintro (⟨rfl, rfl⟩ | ⟨⟨rfl, rfl⟩, other⟩)
        · exact ⟨rfl, rfl⟩
        · exact absurd ⟨rfl, rfl⟩ other
      · rintro ⟨rfl, rfl⟩
        exact .inl ⟨rfl, rfl⟩
    · simp [same]
  · simp only [out, inc]
    exact linked

end RetypeEdge

end Store

end PropertyGraph
