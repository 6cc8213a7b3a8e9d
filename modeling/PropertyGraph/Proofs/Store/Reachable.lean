import PropertyGraph.Proofs.Store.Counts

namespace PropertyGraph

inductive StoreChange where
  | addNode (labels : LabelSet) (properties : Properties)
  | addEdge (source target : NodeId) (type : EdgeType) (properties : Properties)
  | removeEdge (id : EdgeId)
  | detachNode (id : NodeId)
  | removeNode (id : NodeId)
  | retypeEdge (id : EdgeId) (type : EdgeType)

namespace Store

def leftBy {α : Type} (s : Store) : Except GraphError (Store × α) → Store
  | .ok (after, _) => after
  | .error _ => s

def apply (s : Store) : StoreChange → Store
  | .addNode labels properties => (s.addNode labels properties).1
  | .addEdge source target type properties => s.leftBy (s.addEdge source target type properties)
  | .removeEdge id => s.leftBy (s.removeEdge id)
  | .detachNode id => (s.detachNode id).1
  | .removeNode id => (s.removeNode id).1
  | .retypeEdge id type => s.leftBy (s.retypeEdge id type)

inductive Reachable : Store → Prop
  | empty : Reachable ∅
  | step {s : Store} (change : StoreChange) : Reachable s → Reachable (s.apply change)

variable {s : Store}

section Invariants

theorem leftBy_induction {α : Type} {p : Store → Prop} {result : Except GraphError (Store × α)}
    (kept : p s) (changed : ∀ after a, result = .ok (after, a) → p after) : p (s.leftBy result) := by
  cases result with
  | error e => exact kept
  | ok pair => exact changed pair.1 pair.2 rfl

theorem Sound.apply (h : s.Sound) (change : StoreChange) : (s.apply change).Sound := by
  cases change with
  | addNode labels properties => exact h.addNode labels properties
  | addEdge source target type properties =>
      exact leftBy_induction h fun after id added => h.addEdge added
  | removeEdge id => exact leftBy_induction h fun after edge removed => h.removeEdge removed
  | detachNode id =>
      cases live : s.hasNode id with
      | false => simpa [Store.apply, detachNode_of_dead live] using h
      | true =>
          obtain ⟨after, edges, detached, sound, -⟩ := h.detachNode live
          simpa [Store.apply, detached] using sound
  | removeNode id =>
      cases found : s.node? id with
      | none => simpa [Store.apply, removeNode_of_dead found] using h
      | some node =>
          obtain ⟨after, edges, removed, sound, -⟩ := h.removeNode found
          simpa [Store.apply, removed] using sound
  | retypeEdge id type =>
      exact leftBy_induction h fun after old retyped => (h.retypeEdge retyped).1

theorem Counted.apply (h : s.Counted) (change : StoreChange) : (s.apply change).Counted := by
  cases change with
  | addNode labels properties => exact h.addNode labels properties
  | addEdge source target type properties =>
      exact leftBy_induction h fun after id added => h.addEdge added
  | removeEdge id => exact leftBy_induction h fun after edge removed => (h.removeEdge removed).1
  | detachNode id => exact (h.detachNode id).1
  | removeNode id => exact (h.removeNode id).1
  | retypeEdge id type => exact leftBy_induction h fun after old retyped => h.retypeEdge retyped

theorem Reachable.sound (reachable : s.Reachable) : s.Sound := by
  induction reachable with
  | empty => exact sound_empty
  | step change _ ih => exact ih.apply change

theorem Reachable.counted (reachable : s.Reachable) : s.Counted := by
  induction reachable with
  | empty => exact counted_empty
  | step change _ ih => exact ih.apply change

end Invariants

section Adjacency

theorem Sound.outgoingOf_eq_filter (h : s.Sound) (node : NodeId) (type : EdgeType) :
    s.outgoingOf node type = (s.outgoing node).filter fun id => (s.edge? id).any (·.type = type) := by
  refine (GroupMap.filter_items fun other id mem => ?_).symm
  obtain ⟨edge, found, -, typed⟩ := h.outgoing.mp mem
  simp [found, typed]

theorem Sound.incomingOf_eq_filter (h : s.Sound) (node : NodeId) (type : EdgeType) :
    s.incomingOf node type = (s.incoming node).filter fun id => (s.edge? id).any (·.type = type) := by
  refine (GroupMap.filter_items fun other id mem => ?_).symm
  obtain ⟨edge, found, -, typed⟩ := h.incoming.mp mem
  simp [found, typed]

theorem Sound.groups_of_dead (h : s.Sound) {node : NodeId} (dead : s.node? node = none) :
    s.outgoingGroups node = ∅ ∧ s.incomingGroups node = ∅ := by
  have absent : s.hasNode node = false := by rw [hasNode, dead, Option.isSome_none]
  refine h.groups_of_alone fun e edge found => ⟨fun source => ?_, fun target => ?_⟩
  · simpa [source, absent] using h.sourceLive found
  · simpa [target, absent] using h.targetLive found

end Adjacency

def Leaves (s : Store) (id : EdgeId) (node : NodeId) (type : EdgeType) : Bool :=
  (s.edge? id).any fun edge => edge.source = node ∧ edge.type = type

def Arrives (s : Store) (id : EdgeId) (node : NodeId) (type : EdgeType) : Bool :=
  (s.edge? id).any fun edge => edge.target = node ∧ edge.type = type

structure Intact (s : Store) : Prop where
  nodeSlot : ∀ (i : Nat) (node : Node), s.node? ⟨i⟩ = some node → node.id = ⟨i⟩
  edgeSlot : ∀ (i : Nat) (edge : Edge), s.edge? ⟨i⟩ = some edge → edge.id = ⟨i⟩
  ends : ∀ id edge, s.edge? id = some edge →
    s.hasNode edge.source = true ∧ s.hasNode edge.target = true
  outgoing : ∀ id node type,
    (s.outgoingOf node type).count id = if s.Leaves id node type then 1 else 0
  incoming : ∀ id node type,
    (s.incomingOf node type).count id = if s.Arrives id node type then 1 else 0
  outgoingFilled : ∀ node type group, (s.outgoingGroups node).get? type = some group →
    group.toList ≠ []
  incomingFilled : ∀ node type group, (s.incomingGroups node).get? type = some group →
    group.toList ≠ []
  deadAlone : ∀ node, s.node? node = none → s.outgoingGroups node = ∅ ∧ s.incomingGroups node = ∅
  nodeCount : s.nodeCount = s.liveNodes.length
  edgeCount : s.edgeCount = s.liveEdges.length
  edgeTaken : ∀ id after edge, s.removeEdge id = .ok (after, edge) →
    after.edgeCount + 1 = s.edgeCount
  edgesTaken : ∀ node after edges, s.detachNode node = (after, .ok edges) →
    after.edgeCount + edges.length = s.edgeCount
  nodeTaken : ∀ node after record edges, s.removeNode node = (after, .ok (record, edges)) →
    after.nodeCount + 1 = s.nodeCount ∧ after.edgeCount + edges.length = s.edgeCount
  outgoingOfType : ∀ node type,
    s.outgoingOf node type = (s.outgoing node).filter fun id => (s.edge? id).any (·.type = type)
  incomingOfType : ∀ node type,
    s.incomingOf node type = (s.incoming node).filter fun id => (s.edge? id).any (·.type = type)

theorem Sound.intact_of_counted (h : s.Sound) (counted : s.Counted) : s.Intact where
  nodeSlot _ _ found := h.nodeId found
  edgeSlot _ _ found := h.edgeId found
  ends _ _ found := ⟨h.sourceLive found, h.targetLive found⟩
  outgoing id node type := by
    refine count_eq_ite (GroupMap.nodup_itemsAt _ type) (h.outgoing.trans ?_)
    simp [Leaves, Option.any_eq_true]
  incoming id node type := by
    refine count_eq_ite (GroupMap.nodup_itemsAt _ type) (h.incoming.trans ?_)
    simp [Arrives, Option.any_eq_true]
  outgoingFilled := h.outgoingFilled
  incomingFilled := h.incomingFilled
  deadAlone _ dead := h.groups_of_dead dead
  nodeCount := counted.nodes
  edgeCount := counted.edges
  edgeTaken _ _ _ removed := (counted.removeEdge removed).2
  edgesTaken node after edges detached := by
    have taken := (counted.detachNode node).2.2 edges
    rw [detached] at taken
    exact taken rfl
  nodeTaken node after record edges removed := by
    have taken := (counted.removeNode node).2 record edges
    rw [removed] at taken
    exact taken rfl
  outgoingOfType := h.outgoingOf_eq_filter
  incomingOfType := h.incomingOf_eq_filter

theorem Reachable.intact (reachable : s.Reachable) : s.Intact :=
  reachable.sound.intact_of_counted reachable.counted

def loop : Store :=
  [.addNode ∅ ∅, .addNode ∅ ∅, .addEdge ⟨0⟩ ⟨1⟩ ⟨"T"⟩ ∅, .addEdge ⟨0⟩ ⟨0⟩ ⟨"T"⟩ ∅,
    .retypeEdge ⟨1⟩ ⟨"U"⟩, .removeNode ⟨1⟩].foldl apply ∅

theorem Reachable.foldl (reachable : s.Reachable) (changes : List StoreChange) :
    (changes.foldl apply s).Reachable := by
  induction changes generalizing s with
  | nil => exact reachable
  | cons change rest ih => exact ih (reachable.step change)

theorem reachable_loop : loop.Reachable := Reachable.empty.foldl _

theorem intact_loop : loop.Reachable ∧ loop.Intact := ⟨reachable_loop, reachable_loop.intact⟩

end Store

end PropertyGraph
