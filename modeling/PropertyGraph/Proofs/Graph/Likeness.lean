import PropertyGraph.Proofs.Graph.Handles
import PropertyGraph.Proofs.Graph.Lookup
import PropertyGraph.Proofs.Index.Likeness

namespace PropertyGraph

section Candidates

variable {α : Type}

structure Candidates.Alike (c d : Candidates α) : Prop where
  items : c.items.Perm d.items
  maxSize : c.maxSize = d.maxSize

theorem Candidates.Alike.refl (c : Candidates α) : c.Alike c := ⟨.refl _, rfl⟩

theorem Candidates.rel_self (best : Option (Candidates α)) : Option.Rel Alike best best := by
  cases best with
  | none => exact .none
  | some c => exact .some (.refl c)

theorem Candidates.Alike.getD (c : Candidates α) {best best' : Option (Candidates α)}
    (bests : Option.Rel Alike best best') : (best.getD c).Alike (best'.getD c) := by
  cases bests with
  | none => exact .refl c
  | some same => exact same

theorem Candidates.Alike.better {best best' : Option (Candidates α)} {c d : Candidates α}
    (bests : Option.Rel Alike best best') (alike : c.Alike d) :
    (Candidates.better best c).Alike (Candidates.better best' d) := by
  cases bests with
  | none => exact alike
  | @some b b' same =>
      have smaller : c.isSmallerThan b = d.isSmallerThan b' := by
        rw [isSmallerThan, isSmallerThan, same.maxSize, alike.maxSize]
      simp only [Candidates.better, smaller]
      split
      · exact alike
      · exact same

variable [Ord α] [Std.TransOrd α] [Std.LawfulEqOrd α]

theorem Candidates.alike_ofHolders {found other : Option (InsertionSet α)}
    (members : ∀ a, a ∈ listed found ↔ a ∈ listed other) :
    (Candidates.ofHolders found).Alike (Candidates.ofHolders other) := by
  have perm := (List.perm_ext_iff_of_nodup (nodup_listed found) (nodup_listed other)).mpr members
  rw [ofHolders_eq, ofHolders_eq]
  exact ⟨perm, congrArg some perm.length_eq⟩

theorem IndexCatalog.Alike.narrow? {indexes others : IndexCatalog α} (h : indexes.Alike others)
    {best best' : Option (Candidates α)} (bests : Option.Rel Candidates.Alike best best')
    (constraints : List (String × PropertyValue)) :
    Agree (Option.Rel Candidates.Alike) (indexes.narrow? best constraints)
      (others.narrow? best' constraints) := by
  induction constraints generalizing best best' with
  | nil => exact .ok bests
  | cons pair rest ih =>
      obtain ⟨key, value⟩ := pair
      rw [IndexCatalog.narrow?, IndexCatalog.narrow?]
      have alike := h key
      generalize indexes[key]? = found, others[key]? = found' at alike
      cases alike with
      | none => exact ih bests
      | @some index other alike =>
          simp only [PropertyIndex.get?, PropertyIndex.check?_of_shape alike.shape value]
          cases other.check? value with
          | error e => exact .error e
          | ok => exact ih (.some (.better bests (Candidates.alike_ofHolders (alike.holds value))))

end Candidates

section Failing

variable {α ρ : Type} {record? : α → Option ρ} {accepts? : ρ → Except Incomparable Bool}

/-- The lookup is refused, or it ends in a record that cannot be compared. -/
def LookupFails (result : Except Incomparable (Selection α)) : Prop :=
  ∀ selection, result = .ok selection → ∃ e, .error e ∈ selection.items

theorem failed_sift_iff {ids : List α} :
    (∃ e, .error e ∈ sift record? accepts? ids) ↔
      ∃ a ∈ ids, ∃ record e, record? a = some record ∧ accepts? record = .error e := by
  induction ids with
  | nil => simp [sift]
  | cons id rest ih =>
      rw [sift]
      cases found : record? id with
      | none => simp [ih, found]
      | some record =>
          cases accepted : accepts? record with
          | error e => simp [found, accepted]
          | ok passes => cases passes <;> simp [ih, found, accepted]

theorem lookupFails_congr {candidates candidates' : Except Incomparable (Candidates α)}
    (agree : Agree Candidates.Alike candidates candidates') :
    LookupFails (candidates.map fun c => ⟨sift record? accepts? c.items, c.maxSize⟩) ↔
      LookupFails (candidates'.map fun c => ⟨sift record? accepts? c.items, c.maxSize⟩) := by
  cases agree with
  | error e => exact iff_of_true (fun _ eq => by cases eq) fun _ eq => by cases eq
  | ok alike => simp only [LookupFails, Except.map, Except.ok.injEq, forall_eq', failed_sift_iff,
      alike.items.mem_iff]

end Failing

namespace Graph

structure Alike (g other : Graph) : Prop where
  store : g.store = other.store
  buckets : g.buckets = other.buckets
  nodeIndexes : g.nodeIndexes.Alike other.nodeIndexes
  edgeIndexes : g.edgeIndexes.Alike other.edgeIndexes

/-- What can be told of a graph by trying a change or a lookup is the same of both. -/
structure Agrees (g other : Graph) : Prop where
  outcome : ∀ change, g.outcome change = other.outcome change
  nodeLookup : ∀ filter, LookupFails (g.selectNodes? filter) ↔ LookupFails (other.selectNodes? filter)
  edgeLookup : ∀ filter, LookupFails (g.selectEdges? filter) ↔ LookupFails (other.selectEdges? filter)

variable {g other : Graph}

theorem alike_empty : (∅ : Graph).Alike ∅ := ⟨rfl, rfl, IndexCatalog.alike_empty, IndexCatalog.alike_empty⟩

section Nodes

theorem Alike.newNode (h : g.Alike other) (labels : LabelSet) (properties : Properties) :
    SameResult Alike (g.newNode labels properties) (other.newNode labels properties) := by
  rw [Graph.newNode, Graph.newNode, h.nodeIndexes.checkAll?, h.store, h.buckets]
  cases other.nodeIndexes.checkAll? properties with
  | error e => exact ⟨h, rfl⟩
  | ok =>
      obtain ⟨store, id⟩ := other.store.addNode labels properties
      obtain ⟨indexes, same⟩ := h.nodeIndexes.insertAll properties id
      dsimp only
      rw [same]
      cases (other.nodeIndexes.insertAll properties id).2 with
      | error e => exact ⟨⟨rfl, rfl, indexes, h.edgeIndexes⟩, rfl⟩
      | ok => exact ⟨⟨rfl, rfl, indexes, h.edgeIndexes⟩, rfl⟩

theorem Alike.setNodeProperty (h : g.Alike other) (id : NodeId) (key : String)
    (value : PropertyValue) :
    SameResult Alike (g.setNodeProperty id key value) (other.setNodeProperty id key value) := by
  rw [Graph.setNodeProperty, Graph.setNodeProperty, node?, node?, h.store]
  cases other.store.node? id with
  | none => exact ⟨h, rfl⟩
  | some node =>
      obtain ⟨left, right, result, replaced, replaced', indexes⟩ :=
        (h.nodeIndexes.replace key (node.property? key) value id).exists_eq
      dsimp only
      rw [replaced, replaced']
      cases result with
      | error e => exact ⟨⟨rfl, h.buckets, indexes, h.edgeIndexes⟩, rfl⟩
      | ok => exact ⟨⟨rfl, h.buckets, indexes, h.edgeIndexes⟩, rfl⟩

theorem Alike.removeNodeProperty (h : g.Alike other) (id : NodeId) (key : String) :
    SameResult Alike (g.removeNodeProperty id key) (other.removeNodeProperty id key) := by
  rw [Graph.removeNodeProperty, Graph.removeNodeProperty, node?, node?, h.store]
  cases other.store.node? id with
  | none => exact ⟨h, rfl⟩
  | some node =>
      dsimp only
      cases node.property? key with
      | none => exact ⟨h, rfl⟩
      | some old => exact ⟨⟨rfl, h.buckets, h.nodeIndexes.remove key old id, h.edgeIndexes⟩, rfl⟩

theorem Alike.relabel (h : g.Alike other) (id : NodeId) (node : Node) (labels : LabelSet) :
    (g.relabel id node labels).Alike (other.relabel id node labels) := by
  rw [Graph.relabel, Graph.relabel, h.store, h.buckets]
  exact ⟨rfl, rfl, h.nodeIndexes, h.edgeIndexes⟩

theorem Alike.setNodeLabels (h : g.Alike other) (id : NodeId) (labels : LabelSet) :
    SameResult Alike (g.setNodeLabels id labels) (other.setNodeLabels id labels) := by
  rw [Graph.setNodeLabels, Graph.setNodeLabels, node?, node?, h.store]
  cases other.store.node? id with
  | none => exact ⟨h, rfl⟩
  | some node => exact ⟨h.relabel id node labels, rfl⟩

theorem Alike.addNodeLabel (h : g.Alike other) (id : NodeId) (label : Label) :
    SameResult Alike (g.addNodeLabel id label) (other.addNodeLabel id label) := by
  rw [Graph.addNodeLabel, Graph.addNodeLabel, node?, node?, h.store]
  cases other.store.node? id with
  | none => exact ⟨h, rfl⟩
  | some node =>
      dsimp only
      split
      · exact ⟨h, rfl⟩
      · exact ⟨h.relabel id node _, rfl⟩

theorem Alike.removeNodeLabel (h : g.Alike other) (id : NodeId) (label : Label) :
    SameResult Alike (g.removeNodeLabel id label) (other.removeNodeLabel id label) := by
  rw [Graph.removeNodeLabel, Graph.removeNodeLabel, node?, node?, h.store]
  cases other.store.node? id with
  | none => exact ⟨h, rfl⟩
  | some node =>
      dsimp only
      split
      · exact ⟨h.relabel id node _, rfl⟩
      · exact ⟨h, rfl⟩

end Nodes

section Edges

theorem Alike.newEdge (h : g.Alike other) (source target : NodeId) (type : EdgeType)
    (properties : Properties) :
    SameResult Alike (g.newEdge source target type properties)
      (other.newEdge source target type properties) := by
  rw [Graph.newEdge, Graph.newEdge, h.edgeIndexes.checkAll?, h.store, h.buckets]
  cases other.edgeIndexes.checkAll? properties with
  | error e => exact ⟨h, rfl⟩
  | ok =>
      dsimp only
      cases other.store.addEdge source target type properties with
      | error e => exact ⟨h, rfl⟩
      | ok added =>
          obtain ⟨store, id⟩ := added
          obtain ⟨indexes, same⟩ := h.edgeIndexes.insertAll properties id
          dsimp only
          rw [same]
          cases (other.edgeIndexes.insertAll properties id).2 with
          | error e => exact ⟨⟨rfl, rfl, h.nodeIndexes, indexes⟩, rfl⟩
          | ok => exact ⟨⟨rfl, rfl, h.nodeIndexes, indexes⟩, rfl⟩

theorem Alike.setEdgeProperty (h : g.Alike other) (id : EdgeId) (key : String)
    (value : PropertyValue) :
    SameResult Alike (g.setEdgeProperty id key value) (other.setEdgeProperty id key value) := by
  rw [Graph.setEdgeProperty, Graph.setEdgeProperty, edge?, edge?, h.store]
  cases other.store.edge? id with
  | none => exact ⟨h, rfl⟩
  | some edge =>
      obtain ⟨left, right, result, replaced, replaced', indexes⟩ :=
        (h.edgeIndexes.replace key (edge.property? key) value id).exists_eq
      dsimp only
      rw [replaced, replaced']
      cases result with
      | error e => exact ⟨⟨rfl, h.buckets, h.nodeIndexes, indexes⟩, rfl⟩
      | ok => exact ⟨⟨rfl, h.buckets, h.nodeIndexes, indexes⟩, rfl⟩

theorem Alike.removeEdgeProperty (h : g.Alike other) (id : EdgeId) (key : String) :
    SameResult Alike (g.removeEdgeProperty id key) (other.removeEdgeProperty id key) := by
  rw [Graph.removeEdgeProperty, Graph.removeEdgeProperty, edge?, edge?, h.store]
  cases other.store.edge? id with
  | none => exact ⟨h, rfl⟩
  | some edge =>
      dsimp only
      cases edge.property? key with
      | none => exact ⟨h, rfl⟩
      | some old => exact ⟨⟨rfl, h.buckets, h.nodeIndexes, h.edgeIndexes.remove key old id⟩, rfl⟩

theorem Alike.setEdgeType (h : g.Alike other) (id : EdgeId) (type : EdgeType) :
    SameResult Alike (g.setEdgeType id type) (other.setEdgeType id type) := by
  rw [Graph.setEdgeType, Graph.setEdgeType, h.store, h.buckets]
  cases other.store.retypeEdge id type with
  | error e => exact ⟨h, rfl⟩
  | ok retyped => exact ⟨⟨rfl, rfl, h.nodeIndexes, h.edgeIndexes⟩, rfl⟩

end Edges

section Removal

theorem Alike.forgetEdge (h : g.Alike other) (edge : Edge) :
    (g.forgetEdge edge).Alike (other.forgetEdge edge) := by
  rw [Graph.forgetEdge, Graph.forgetEdge, h.buckets]
  exact ⟨h.store, rfl, h.nodeIndexes, h.edgeIndexes.removeAll edge.properties edge.id⟩

theorem Alike.forgetEdges (h : g.Alike other) (edges : List Edge) :
    (edges.foldl Graph.forgetEdge g).Alike (edges.foldl Graph.forgetEdge other) := by
  induction edges generalizing g other with
  | nil => exact h
  | cons edge rest ih => exact ih (h.forgetEdge edge)

theorem Alike.withStore (h : g.Alike other) (store : Store) :
    Alike { g with store } { other with store } :=
  ⟨rfl, h.buckets, h.nodeIndexes, h.edgeIndexes⟩

theorem Alike.removeEdge (h : g.Alike other) (id : EdgeId) :
    SameResult Alike (g.removeEdge id) (other.removeEdge id) := by
  rw [Graph.removeEdge, Graph.removeEdge, h.store]
  cases other.store.removeEdge id with
  | error e => exact ⟨h, rfl⟩
  | ok removed => exact ⟨(h.withStore removed.1).forgetEdge removed.2, rfl⟩

theorem Alike.detachNode (h : g.Alike other) (id : NodeId) :
    SameResult Alike (g.detachNode id) (other.detachNode id) := by
  rw [Graph.detachNode, Graph.detachNode, h.store]
  rcases other.store.detachNode id with ⟨store, e | edges⟩
  · exact ⟨h.withStore store, rfl⟩
  · exact ⟨(h.withStore store).forgetEdges edges, rfl⟩

theorem Alike.removeNode (h : g.Alike other) (id : NodeId) :
    SameResult Alike (g.removeNode id) (other.removeNode id) := by
  rw [Graph.removeNode, Graph.removeNode, h.store]
  rcases other.store.removeNode id with ⟨store, e | ⟨node, edges⟩⟩
  · exact ⟨h.withStore store, rfl⟩
  · have forgotten := (h.withStore store).forgetEdges edges
    dsimp only
    rw [forgotten.buckets]
    exact ⟨⟨forgotten.store, rfl, forgotten.nodeIndexes.removeAll node.properties id,
      forgotten.edgeIndexes⟩, rfl⟩

end Removal

section Indexes

theorem Alike.addNodeIndex (h : g.Alike other) (key : String) :
    SameResult Alike (g.addNodeIndex key) (other.addNodeIndex key) := by
  rw [Graph.addNodeIndex, Graph.addNodeIndex, h.store]
  obtain ⟨indexes, same⟩ := h.nodeIndexes.build key _
  exact ⟨⟨rfl, h.buckets, indexes, h.edgeIndexes⟩, congrArg (Except.mapError _) same⟩

theorem Alike.addEdgeIndex (h : g.Alike other) (key : String) :
    SameResult Alike (g.addEdgeIndex key) (other.addEdgeIndex key) := by
  rw [Graph.addEdgeIndex, Graph.addEdgeIndex, h.store]
  obtain ⟨indexes, same⟩ := h.edgeIndexes.build key _
  exact ⟨⟨rfl, h.buckets, h.nodeIndexes, indexes⟩, congrArg (Except.mapError _) same⟩

theorem Alike.dropNodeIndex (h : g.Alike other) (key : String) :
    (g.dropNodeIndex key).1.Alike (other.dropNodeIndex key).1 :=
  ⟨h.store, h.buckets, h.nodeIndexes.erase key, h.edgeIndexes⟩

theorem Alike.dropEdgeIndex (h : g.Alike other) (key : String) :
    (g.dropEdgeIndex key).1.Alike (other.dropEdgeIndex key).1 :=
  ⟨h.store, h.buckets, h.nodeIndexes, h.edgeIndexes.erase key⟩

end Indexes

section Runs

theorem Alike.step (h : g.Alike other) (change : Change) :
    (g.apply change).Alike (other.apply change) ∧ g.outcome change = other.outcome change := by
  cases change with
  | newNode labels properties =>
      exact (h.newNode labels properties).imp_right (congrArg (Except.map _))
  | newEdge source target type properties =>
      exact (h.newEdge source target type properties).imp_right (congrArg (Except.map _))
  | setNodeProperty id key value =>
      exact (h.setNodeProperty id key value).imp_right (congrArg (Except.map _))
  | removeNodeProperty id key =>
      exact (h.removeNodeProperty id key).imp_right (congrArg (Except.map _))
  | setNodeLabels id labels => exact h.setNodeLabels id labels
  | addNodeLabel id label => exact (h.addNodeLabel id label).imp_right (congrArg (Except.map _))
  | removeNodeLabel id label => exact (h.removeNodeLabel id label).imp_right (congrArg (Except.map _))
  | detachNode id => exact (h.detachNode id).imp_right (congrArg (Except.map _))
  | removeNode id => exact (h.removeNode id).imp_right (congrArg (Except.map _))
  | setEdgeProperty id key value =>
      exact (h.setEdgeProperty id key value).imp_right (congrArg (Except.map _))
  | removeEdgeProperty id key =>
      exact (h.removeEdgeProperty id key).imp_right (congrArg (Except.map _))
  | setEdgeType id type => exact (h.setEdgeType id type).imp_right (congrArg (Except.map _))
  | removeEdge id => exact (h.removeEdge id).imp_right (congrArg (Except.map _))
  | addNodeIndex key => exact h.addNodeIndex key
  | addEdgeIndex key => exact h.addEdgeIndex key
  | dropNodeIndex key => exact ⟨h.dropNodeIndex key, rfl⟩
  | dropEdgeIndex key => exact ⟨h.dropEdgeIndex key, rfl⟩

theorem Alike.foldl (h : g.Alike other) (changes : List Change) :
    (changes.foldl apply g).Alike (changes.foldl apply other) := by
  induction changes generalizing g other with
  | nil => exact h
  | cons change rest ih => exact ih (h.step change).1

theorem Reachable.alike_self (reachable : g.Reachable) : g.Alike g := by
  induction reachable with
  | empty => exact alike_empty
  | step change _ ih => exact (ih.step change).1

end Runs

section Lookups

theorem Alike.nodeCandidates? (h : g.Alike other) (filter : NodeFilter) :
    Agree Candidates.Alike (g.nodeCandidates? filter) (other.nodeCandidates? filter) := by
  rw [Graph.nodeCandidates?, Graph.nodeCandidates?, h.store, h.buckets]
  exact (h.nodeIndexes.narrow? (Candidates.rel_self _) _).map (Candidates.Alike.getD _)

theorem Alike.edgeCandidates? (h : g.Alike other) (filter : EdgeFilter) :
    Agree Candidates.Alike (g.edgeCandidates? filter) (other.edgeCandidates? filter) := by
  rw [Graph.edgeCandidates?, Graph.edgeCandidates?, h.store, h.buckets]
  exact (h.edgeIndexes.narrow? (Candidates.rel_self _) _).map (Candidates.Alike.getD _)

theorem Alike.agrees (h : g.Alike other) : g.Agrees other where
  outcome change := (h.step change).2
  nodeLookup filter := by
    have records : g.node? = other.node? := funext fun id => by rw [node?, node?, h.store]
    simp only [selectNodes?, siftNodes, records]
    exact lookupFails_congr (h.nodeCandidates? filter)
  edgeLookup filter := by
    have records : g.edge? = other.edge? := funext fun id => by rw [edge?, edge?, h.store]
    simp only [selectEdges?, siftEdges, records]
    exact lookupFails_congr (h.edgeCandidates? filter)

end Lookups

end Graph

end PropertyGraph
