import PropertyGraph.Proofs.Graph.Evolution
import PropertyGraph.Proofs.Value.Comparison

namespace PropertyGraph

def Store.recount (s : Store) : Statistics where
  nodeCount := s.liveNodes.length
  edgeCount := s.liveEdges.length
  labelCounts := (Std.ExtTreeSet.ofList (s.liveNodes.flatMap (·.labels.toList))).toList.map
    fun label => (label, s.liveNodes.countP (·.hasLabel label))
  typeCounts := (Std.ExtTreeSet.ofList (s.liveEdges.map Edge.type)).toList.map
    fun type => (type, s.liveEdges.countP (·.type = type))

/-- Each index has at each value just the items whose property compares equal to it, and no value
that nothing holds. -/
structure IndexCatalog.Mirrors {α : Type} [Ord α] [Std.TransOrd α] (indexes : IndexCatalog α)
    (property? : α → String → Option PropertyValue) : Prop where
  holders : ∀ (key : String) (index : PropertyIndex α), indexes[key]? = some index →
    ∀ value id, id ∈ index.entries.itemsAt value ↔
      ∃ held, property? id key = some held ∧ held.compare? value = .ok .eq
  filled : ∀ (key : String) (index : PropertyIndex α), indexes[key]? = some index →
    ∀ (value : PropertyValue) (items : InsertionSet α), index.entries[value]? = some items →
      items.toList ≠ []

namespace Graph

def nodeProperty? (g : Graph) (id : NodeId) (key : String) : Option PropertyValue :=
  (g.node? id).bind (·.property? key)

def edgeProperty? (g : Graph) (id : EdgeId) (key : String) : Option PropertyValue :=
  (g.edge? id).bind (·.property? key)

structure Mirrors (g : Graph) : Prop where
  nodeIndexes : IndexCatalog.Mirrors g.nodeIndexes g.nodeProperty?
  edgeIndexes : IndexCatalog.Mirrors g.edgeIndexes g.edgeProperty?
  labels : ∀ label id, id ∈ g.buckets.nodes.itemsAt label ↔
    ∃ node, g.node? id = some node ∧ label ∈ node.labels
  unlabeled : ∀ id, id ∈ g.buckets.unlabeled.toList ↔
    ∃ node, g.node? id = some node ∧ node.labels = ∅
  types : ∀ type id, id ∈ g.buckets.edges.itemsAt type ↔
    ∃ edge, g.edge? id = some edge ∧ edge.type = type
  labelsFilled : ∀ (label : Label) (items : InsertionSet NodeId),
    g.buckets.nodes[label]? = some items → items.toList ≠ []
  typesFilled : ∀ (type : EdgeType) (items : InsertionSet EdgeId),
    g.buckets.edges[type]? = some items → items.toList ≠ []
  statistics : g.statistics = g.store.recount

variable {g : Graph}

section Statistics

theorem length_eq_countP {α ρ : Type} {items : List α} {records : List ρ} (handle : ρ → α)
    {p : ρ → Bool} (once : items.Nodup) (apart : (records.map handle).Nodup)
    (mem : ∀ a, a ∈ items ↔ ∃ r ∈ records, p r = true ∧ handle r = a) :
    items.length = records.countP p := by
  have picked : ((records.filter p).map handle).Nodup :=
    apart.sublist (List.filter_sublist.map handle)
  have same : items.Perm ((records.filter p).map handle) := by
    refine (List.perm_ext_iff_of_nodup once picked).mpr fun a => ?_
    simp only [mem, List.mem_map, List.mem_filter, and_assoc]
  rw [same.length_eq, List.length_map, List.countP_eq_length_filter]

theorem Sound.length_labelBucket (h : g.Sound) (label : Label) :
    (g.buckets.nodes.itemsAt label).length = g.store.liveNodes.countP (·.hasLabel label) := by
  refine length_eq_countP Node.id (SetMap.nodup_itemsAt _ label) h.store.nodup_nodeIds
    fun id => ?_
  rw [h.buckets.nodes]
  constructor
  · rintro ⟨node, found, carries⟩
    have same : node.id = id := h.store.nodeId found
    exact ⟨node, h.store.mem_liveNodes.mpr (same ▸ found), by simpa [Node.hasLabel], same⟩
  · rintro ⟨node, mem, carries, rfl⟩
    exact ⟨node, h.store.mem_liveNodes.mp mem, by simpa [Node.hasLabel] using carries⟩

theorem Sound.length_typeBucket (h : g.Sound) (type : EdgeType) :
    (g.buckets.edges.itemsAt type).length = g.store.liveEdges.countP (·.type = type) := by
  refine length_eq_countP Edge.id (SetMap.nodup_itemsAt _ type) h.store.nodup_edgeIds
    fun id => ?_
  rw [h.buckets.edges]
  constructor
  · rintro ⟨edge, found, typed⟩
    have same : edge.id = id := h.store.edgeId found
    exact ⟨edge, h.store.mem_liveEdges.mpr (same ▸ found), by simpa, same⟩
  · rintro ⟨edge, mem, typed, rfl⟩
    exact ⟨edge, h.store.mem_liveEdges.mp mem, by simpa using typed⟩

theorem Sound.labelCounts (h : g.Sound) :
    g.buckets.labelCounts = g.store.recount.labelCounts := by
  refine SetMap.map_size h.buckets.nodesFilled h.length_labelBucket fun label => ?_
  simp [Node.hasLabel, List.countP_eq_zero]

theorem Sound.typeCounts (h : g.Sound) :
    g.buckets.typeCounts = g.store.recount.typeCounts := by
  refine SetMap.map_size h.buckets.edgesFilled h.length_typeBucket fun type => ?_
  simp [List.countP_eq_zero]

theorem Sound.statistics (h : g.Sound) (counted : g.store.Counted) :
    g.statistics = g.store.recount := by
  unfold Graph.statistics
  rw [counted.nodes, counted.edges, h.labelCounts, h.typeCounts]
  rfl

end Statistics

section Indexes

theorem exists_compare?_iff {found : Option PropertyValue} {value : PropertyValue} :
    (∃ held, found = some held ∧ held.compare? value = .ok .eq) ↔ found = some value := by
  constructor
  · rintro ⟨held, rfl, same⟩
    rw [PropertyValue.eq_of_order (PropertyValue.order_of_compare? same)]
  · rintro rfl
    exact ⟨value, rfl, PropertyValue.compare?_self value⟩

theorem mirrors_of_sound {α : Type} [Ord α] [Std.TransOrd α] {indexes : IndexCatalog α}
    {holds : String → PropertyValue → α → Prop} {property? : α → String → Option PropertyValue}
    (h : indexes.Sound holds)
    (same : ∀ key value id, holds key value id ↔ property? id key = some value) :
    IndexCatalog.Mirrors indexes property? where
  holders key index found value id := by
    rw [exists_compare?_iff, ← same]
    exact (h key index found).mem
  filled key index found := (h key index found).filled

end Indexes

theorem Reachable.mirrors (reachable : g.Reachable) : g.Mirrors where
  nodeIndexes := mirrors_of_sound reachable.sound.nodeIndexes fun key value id =>
    Option.bind_eq_some_iff.symm
  edgeIndexes := mirrors_of_sound reachable.sound.edgeIndexes fun key value id =>
    Option.bind_eq_some_iff.symm
  labels _ _ := reachable.sound.buckets.nodes
  unlabeled id := by
    rw [reachable.sound.buckets.unlabeled]
    simp only [NodeBare, Std.ExtTreeSet.isEmpty_iff]
  types _ _ := reachable.sound.buckets.edges
  labelsFilled := reachable.sound.buckets.nodesFilled
  typesFilled := reachable.sound.buckets.edgesFilled
  statistics := reachable.sound.statistics reachable.counted

theorem mirrors_indexed : indexed.Reachable ∧ indexed.Mirrors :=
  ⟨reachable_indexed, reachable_indexed.mirrors⟩

end Graph

end PropertyGraph
