import PropertyGraph.Store
import PropertyGraph.Proofs.Container.SetMap
import Mathlib.Logic.Basic

namespace PropertyGraph

namespace Store

structure Sound (s : Store) : Prop where
  nodeId : ∀ {id node}, s.node? id = some node → node.id = id
  edgeId : ∀ {id edge}, s.edge? id = some edge → edge.id = id
  sourceLive : ∀ {id edge}, s.edge? id = some edge → s.hasNode edge.source = true
  targetLive : ∀ {id edge}, s.edge? id = some edge → s.hasNode edge.target = true
  outgoing : ∀ {id node type}, id ∈ s.outgoingOf node type ↔
    ∃ edge, s.edge? id = some edge ∧ edge.source = node ∧ edge.type = type
  incoming : ∀ {id node type}, id ∈ s.incomingOf node type ↔
    ∃ edge, s.edge? id = some edge ∧ edge.target = node ∧ edge.type = type
  outgoingFilled : ∀ node, (s.outgoingGroups node).Filled
  incomingFilled : ∀ node, (s.incomingGroups node).Filled

theorem sound_empty : (∅ : Store).Sound where
  nodeId h := by simp [node?, EmptyCollection.emptyCollection, empty] at h
  edgeId h := by simp [edge?, EmptyCollection.emptyCollection, empty] at h
  sourceLive h := by simp [edge?, EmptyCollection.emptyCollection, empty] at h
  targetLive h := by simp [edge?, EmptyCollection.emptyCollection, empty] at h
  outgoing := by
    intro id node type
    constructor
    · intro h
      cases h
    · rintro ⟨edge, h, -⟩
      simp [edge?, EmptyCollection.emptyCollection, empty] at h
  incoming := by
    intro id node type
    constructor
    · intro h
      cases h
    · rintro ⟨edge, h, -⟩
      simp [edge?, EmptyCollection.emptyCollection, empty] at h
  outgoingFilled _ := GroupMap.filled_empty
  incomingFilled _ := GroupMap.filled_empty

section Lookup

variable {s : Store}

theorem index_lt_of_hasNode {id : NodeId} (h : s.hasNode id = true) :
    id.index < s.nodes.size := by
  obtain ⟨node, found⟩ := Option.isSome_iff_exists.mp h
  obtain ⟨slot, at_id, -⟩ := Option.bind_eq_some_iff.mp found
  exact (Array.getElem?_eq_some_iff.mp at_id).1

theorem hasNode_of_node? {id : NodeId} {node : Node} (h : s.node? id = some node) :
    s.hasNode id = true := Option.isSome_iff_exists.mpr ⟨node, h⟩

theorem edge?_push (record : Edge) (id : EdgeId) :
    (s.edges.push (some record))[id.index]?.join =
      if id.index = s.edges.size then some record else s.edge? id := by
  rw [Array.getElem?_push]
  split <;> rfl

theorem edge?_setIfInBounds {id : EdgeId} {edge : Edge} (h : s.edge? id = some edge)
    (record : Option Edge) (other : EdgeId) :
    (s.edges.setIfInBounds id.index record)[other.index]?.join =
      if other = id then record else s.edge? other := by
  have bound := index_lt_of_edge? h
  rw [Array.getElem?_setIfInBounds]
  by_cases same : other = id
  · subst same
    simp [bound]
  · have apart : id.index ≠ other.index := fun eq => same (by
      cases other; cases id
      exact congrArg EdgeId.mk eq.symm)
    rw [if_neg apart, if_neg same]
    rfl

end Lookup

def rewire (s : Store) (source target : NodeId)
    (change : GroupMap EdgeType EdgeId → GroupMap EdgeType EdgeId) : Store :=
  { s with
    nodes := (s.nodes.modify source.index fun slot =>
      { slot with outgoing := change slot.outgoing }).modify target.index fun slot =>
      { slot with incoming := change slot.incoming } }

theorem link_eq_rewire (s : Store) (source target : NodeId) (type : EdgeType) (id : EdgeId) :
    s.link source target type id = s.rewire source target (·.insertAt type id) := rfl

theorem unlink_eq_rewire (s : Store) (source target : NodeId) (type : EdgeType) (id : EdgeId) :
    s.unlink source target type id = s.rewire source target (·.eraseAt type id) := rfl

section Rewire

variable (s : Store) (source target : NodeId)
variable (change : GroupMap EdgeType EdgeId → GroupMap EdgeType EdgeId)

theorem getElem?_rewire (i : Nat) :
    (s.rewire source target change).nodes[i]? = s.nodes[i]?.map fun slot =>
      ⟨slot.record, if source.index = i then change slot.outgoing else slot.outgoing,
        if target.index = i then change slot.incoming else slot.incoming⟩ := by
  rw [rewire, Array.getElem?_modify, Array.getElem?_modify]
  by_cases hs : source.index = i <;> by_cases ht : target.index = i <;>
    cases s.nodes[i]? <;> simp [hs, ht]

theorem node?_rewire (id : NodeId) : (s.rewire source target change).node? id = s.node? id := by
  rw [node?, getElem?_rewire, node?]
  cases s.nodes[id.index]? <;> rfl

theorem edge?_rewire (id : EdgeId) : (s.rewire source target change).edge? id = s.edge? id := rfl

theorem size_rewire : (s.rewire source target change).nodes.size = s.nodes.size := by
  simp [rewire]

variable {s source target}

theorem outgoingGroups_rewire (h : source.index < s.nodes.size) (id : NodeId) :
    (s.rewire source target change).outgoingGroups id =
      if id = source then change (s.outgoingGroups id) else s.outgoingGroups id := by
  rw [outgoingGroups, getElem?_rewire, outgoingGroups]
  by_cases same : id = source
  · subst same
    simp [Array.getElem?_eq_getElem h]
  · have apart : source.index ≠ id.index := fun eq => same (by
      cases id; cases source
      exact congrArg NodeId.mk eq.symm)
    simp only [same, apart, if_false]
    cases s.nodes[id.index]? <;> rfl

theorem incomingGroups_rewire (h : target.index < s.nodes.size) (id : NodeId) :
    (s.rewire source target change).incomingGroups id =
      if id = target then change (s.incomingGroups id) else s.incomingGroups id := by
  rw [incomingGroups, getElem?_rewire, incomingGroups]
  by_cases same : id = target
  · subst same
    simp [Array.getElem?_eq_getElem h]
  · have apart : target.index ≠ id.index := fun eq => same (by
      cases id; cases target
      exact congrArg NodeId.mk eq.symm)
    simp only [same, apart, if_false]
    cases s.nodes[id.index]? <;> rfl

theorem filled_rewire (hc : ∀ m : GroupMap EdgeType EdgeId, m.Filled → (change m).Filled)
    (hs : source.index < s.nodes.size) (ht : target.index < s.nodes.size)
    (out : ∀ node, (s.outgoingGroups node).Filled) (inc : ∀ node, (s.incomingGroups node).Filled) :
    (∀ node, ((s.rewire source target change).outgoingGroups node).Filled) ∧
      ∀ node, ((s.rewire source target change).incomingGroups node).Filled := by
  constructor
  · intro node
    rw [outgoingGroups_rewire change hs]
    split
    · exact hc _ (out node)
    · exact out node
  · intro node
    rw [incomingGroups_rewire change ht]
    split
    · exact hc _ (inc node)
    · exact inc node

end Rewire

section Link

variable {s : Store} {source target node : NodeId} {type other : EdgeType} {id edge : EdgeId}

theorem mem_outgoingOf_link (h : source.index < s.nodes.size) :
    edge ∈ (s.link source target type id).outgoingOf node other ↔
      (node = source ∧ other = type ∧ edge = id) ∨ edge ∈ s.outgoingOf node other := by
  rw [outgoingOf, link_eq_rewire, outgoingGroups_rewire _ h]
  by_cases same : node = source
  · simp [same, GroupMap.mem_itemsAt_insertAt, outgoingOf]
  · simp [same, outgoingOf]

theorem mem_incomingOf_link (h : target.index < s.nodes.size) :
    edge ∈ (s.link source target type id).incomingOf node other ↔
      (node = target ∧ other = type ∧ edge = id) ∨ edge ∈ s.incomingOf node other := by
  rw [incomingOf, link_eq_rewire, incomingGroups_rewire _ h]
  by_cases same : node = target
  · simp [same, GroupMap.mem_itemsAt_insertAt, incomingOf]
  · simp [same, incomingOf]

theorem mem_outgoingOf_unlink (h : source.index < s.nodes.size) :
    edge ∈ (s.unlink source target type id).outgoingOf node other ↔
      edge ∈ s.outgoingOf node other ∧ ¬(node = source ∧ other = type ∧ edge = id) := by
  rw [outgoingOf, unlink_eq_rewire, outgoingGroups_rewire _ h]
  by_cases same : node = source
  · simp [same, GroupMap.mem_itemsAt_eraseAt, outgoingOf]
  · simp [same, outgoingOf]

theorem mem_incomingOf_unlink (h : target.index < s.nodes.size) :
    edge ∈ (s.unlink source target type id).incomingOf node other ↔
      edge ∈ s.incomingOf node other ∧ ¬(node = target ∧ other = type ∧ edge = id) := by
  rw [incomingOf, unlink_eq_rewire, incomingGroups_rewire _ h]
  by_cases same : node = target
  · simp [same, GroupMap.mem_itemsAt_eraseAt, incomingOf]
  · simp [same, incomingOf]

end Link

end Store

end PropertyGraph
