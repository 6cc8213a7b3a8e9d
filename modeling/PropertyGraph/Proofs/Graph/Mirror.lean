import PropertyGraph.Graph
import PropertyGraph.Proofs.Index.IndexCatalog
import PropertyGraph.Proofs.Index.LabelBuckets
import PropertyGraph.Proofs.Store.Detachment
import PropertyGraph.Proofs.Store.Listing

namespace PropertyGraph

section Relations

variable (node? : NodeId → Option Node) (edge? : EdgeId → Option Edge)

def NodeHolds (key : String) (value : PropertyValue) (id : NodeId) : Prop :=
  ∃ node, node? id = some node ∧ node.properties[key]? = some value

def EdgeHolds (key : String) (value : PropertyValue) (id : EdgeId) : Prop :=
  ∃ edge, edge? id = some edge ∧ edge.properties[key]? = some value

def NodeCarries (id : NodeId) (label : Label) : Prop :=
  ∃ node, node? id = some node ∧ label ∈ node.labels

def NodeBare (id : NodeId) : Prop := ∃ node, node? id = some node ∧ node.labels.isEmpty = true

def EdgeTyped (id : EdgeId) (type : EdgeType) : Prop := ∃ edge, edge? id = some edge ∧ edge.type = type

end Relations

namespace Graph

structure Sound (g : Graph) : Prop where
  store : g.store.Sound
  buckets : g.buckets.Sound (NodeCarries g.node?) (NodeBare g.node?) (EdgeTyped g.edge?)
  nodeIndexes : g.nodeIndexes.Sound (NodeHolds g.node?)
  edgeIndexes : g.edgeIndexes.Sound (EdgeHolds g.edge?)

theorem sound_empty : (∅ : Graph).Sound where
  store := Store.sound_empty
  buckets := by
    refine LabelBuckets.sound_empty.congr (fun id label => ?_) (fun id => ?_) fun id type => ?_
    · refine iff_of_false not_false fun there => ?_
      obtain ⟨node, found, -⟩ := there
      cases found
    · refine iff_of_false not_false fun there => ?_
      obtain ⟨node, found, -⟩ := there
      cases found
    · refine iff_of_false not_false fun there => ?_
      obtain ⟨edge, found, -⟩ := there
      cases found
  nodeIndexes := IndexCatalog.sound_empty _
  edgeIndexes := IndexCatalog.sound_empty _

theorem exists_update {ι ρ : Type} [DecidableEq ι] {f f' : ι → Option ρ} {id : ι} {r : Option ρ}
    (h : ∀ n, f' n = if n = id then r else f n) (p : ρ → Prop) (n : ι) :
    (∃ x, f' n = some x ∧ p x) ↔
      (n = id ∧ ∃ x, r = some x ∧ p x) ∨ (n ≠ id ∧ ∃ x, f n = some x ∧ p x) := by
  rw [h]
  by_cases same : n = id <;> simp [same]

variable {g : Graph}

section Nodes

theorem Sound.newNode (h : g.Sound) (labels : LabelSet) (properties : Properties) :
    (g.newNode labels properties).1.Sound := by
  cases checked : g.nodeIndexes.checkAll? properties with
  | error e => simpa [Graph.newNode, checked] using h
  | ok =>
      have update := Store.node?_addNode g.store labels properties
      have fresh := Store.node?_fresh g.store labels properties
      have store := h.store.addNode labels properties
      generalize hid : (g.store.addNode labels properties).2 = id at update fresh
      obtain ⟨indexes, inserted⟩ := IndexCatalog.exists_insertAll id checked
      have result : (g.newNode labels properties).1 =
          { g with store := (g.store.addNode labels properties).1, nodeIndexes := indexes,
                   buckets := g.buckets.addNode id labels } := by
        simp only [Graph.newNode, checked, hid, inserted]
      rw [result]
      refine ⟨store, ?_, ?_, h.edgeIndexes⟩
      · refine (h.buckets.addNode id labels).congr (fun n label => ?_) (fun n => ?_)
          fun _ _ => Iff.rfl
        · refine Iff.trans ?_ (exists_update update (fun node => label ∈ node.labels) n).symm
          by_cases same : n = id
          · simp [same, NodeCarries, node?, fresh]
          · simp [same, NodeCarries, node?]
        · refine Iff.trans ?_ (exists_update update (fun node => node.labels.isEmpty) n).symm
          by_cases same : n = id
          · simp [same, NodeBare, node?, fresh]
          · simp [same, NodeBare, node?]
      · refine (h.nodeIndexes.insertAll inserted).congr fun key value n => ?_
        refine Iff.trans ?_ (exists_update update (fun node => node.properties[key]? = some value) n).symm
        by_cases same : n = id
        · simp [same, NodeHolds, node?, fresh]
        · simp [same, NodeHolds, node?]

theorem Sound.withProperties (h : g.Sound) {id : NodeId} {node : Node}
    (found : g.node? id = some node) (properties : Properties) {indexes : IndexCatalog NodeId}
    (mirror : ∀ update : NodeId → Option Node,
      (∀ n, update n = if n = id then some { node with properties } else g.node? n) →
        indexes.Sound (NodeHolds update)) :
    Sound { g with nodeIndexes := indexes, store := g.store.setNode id { node with properties } } := by
  have live := Store.hasNode_of_node? found
  have update := Store.node?_setNode live { node with properties }
  refine ⟨h.store.setNode live (h.store.nodeId found :), ?_, mirror _ update, h.edgeIndexes⟩
  refine h.buckets.congr (fun n label => ?_) (fun n => ?_) fun _ _ => Iff.rfl
  · refine Iff.trans ?_ (exists_update update (fun node => label ∈ node.labels) n).symm
    by_cases same : n = id
    · simp [same, NodeCarries, found]
    · simp [same, NodeCarries, node?]
  · refine Iff.trans ?_ (exists_update update (fun node => node.labels.isEmpty) n).symm
    by_cases same : n = id
    · simp [same, NodeBare, found]
    · simp [same, NodeBare, node?]

theorem nodeHolds_old {id : NodeId} {node : Node} (found : g.node? id = some node) {key : String}
    {value : PropertyValue} (old : node.property? key = some value) :
    NodeHolds g.node? key value id := ⟨node, found, old⟩

theorem Sound.setNodeProperty (h : g.Sound) (id : NodeId) (key : String) (value : PropertyValue) :
    (g.setNodeProperty id key value).1.Sound := by
  cases found : g.node? id with
  | none => simpa [Graph.setNodeProperty, found] using h
  | some node =>
      cases replaced : g.nodeIndexes.replace key (node.property? key) value id with
      | mk indexes result =>
          cases result with
          | error e =>
              have kept := h.nodeIndexes.replace_error (fun _ old => nodeHolds_old found old) replaced
              simpa [Graph.setNodeProperty, found, replaced] using
                (⟨h.store, h.buckets, kept, h.edgeIndexes⟩ : Sound { g with nodeIndexes := indexes })
          | ok =>
              simp only [Graph.setNodeProperty, found, replaced]
              refine h.withProperties found _ fun update eq => ?_
              refine (h.nodeIndexes.replace replaced).congr fun k v n => ?_
              refine Iff.trans ?_
                (exists_update eq (fun node => node.properties[k]? = some v) n).symm
              by_cases same : n = id
              · by_cases at_key : key = k
                · simp [same, at_key, NodeHolds, found, Node.property?, eq_comm]
                · simp [same, at_key, Ne.symm at_key, NodeHolds, found, Node.property?,
                    Std.ExtTreeMap.getElem?_insert]
              · simp [same, NodeHolds]

theorem Sound.removeNodeProperty (h : g.Sound) (id : NodeId) (key : String) :
    (g.removeNodeProperty id key).1.Sound := by
  cases found : g.node? id with
  | none => simpa [Graph.removeNodeProperty, found] using h
  | some node =>
      cases there : node.property? key with
      | none => simpa [Graph.removeNodeProperty, found, there] using h
      | some old =>
          simp only [Graph.removeNodeProperty, found, there]
          refine h.withProperties found _ fun update eq => ?_
          refine (h.nodeIndexes.remove key old id).congr fun k v n => ?_
          refine Iff.trans ?_ (exists_update eq (fun node => node.properties[k]? = some v) n).symm
          rw [Node.property?] at there
          by_cases same : n = id
          · by_cases at_key : key = k
            · subst at_key
              simp [same, NodeHolds, found, there, eq_comm]
            · simp [same, at_key, Ne.symm at_key, NodeHolds, found,
                Std.ExtTreeMap.getElem?_erase]
          · simp [same, NodeHolds]

theorem Sound.relabel (h : g.Sound) {id : NodeId} {node : Node} (found : g.node? id = some node)
    (labels : LabelSet) : (g.relabel id node labels).Sound := by
  have live := Store.hasNode_of_node? found
  have update := Store.node?_setNode live { node with labels }
  refine ⟨h.store.setNode live (h.store.nodeId found :), ?_, ?_, h.edgeIndexes⟩
  · refine ((h.buckets.removeNode id node.labels).addNode id labels).congr (fun n label => ?_)
      (fun n => ?_) fun _ _ => Iff.rfl
    · refine Iff.trans ?_ (exists_update update (fun node => label ∈ node.labels) n).symm
      by_cases same : n = id
      · simp [same, NodeCarries, found]
      · simp [same, NodeCarries, node?]
    · refine Iff.trans ?_ (exists_update update (fun node => node.labels.isEmpty) n).symm
      by_cases same : n = id
      · simp [same, NodeBare, found]
      · simp [same, NodeBare, node?]
  · refine h.nodeIndexes.congr fun key value n => ?_
    refine Iff.trans ?_ (exists_update update (fun node => node.properties[key]? = some value) n).symm
    by_cases same : n = id
    · simp [same, NodeHolds, found]
    · simp [same, NodeHolds, node?]

theorem Sound.setNodeLabels (h : g.Sound) (id : NodeId) (labels : LabelSet) :
    (g.setNodeLabels id labels).1.Sound := by
  cases found : g.node? id with
  | none => simpa [Graph.setNodeLabels, found] using h
  | some node => simpa [Graph.setNodeLabels, found] using h.relabel found labels

theorem Sound.addNodeLabel (h : g.Sound) (id : NodeId) (label : Label) :
    (g.addNodeLabel id label).1.Sound := by
  cases found : g.node? id with
  | none => simpa [Graph.addNodeLabel, found] using h
  | some node =>
      simp only [Graph.addNodeLabel, found]
      split
      · exact h
      · exact h.relabel found _

theorem Sound.removeNodeLabel (h : g.Sound) (id : NodeId) (label : Label) :
    (g.removeNodeLabel id label).1.Sound := by
  cases found : g.node? id with
  | none => simpa [Graph.removeNodeLabel, found] using h
  | some node =>
      simp only [Graph.removeNodeLabel, found]
      split
      · exact h.relabel found _
      · exact h

end Nodes

section Edges

theorem Sound.newEdge (h : g.Sound) (source target : NodeId) (type : EdgeType)
    (properties : Properties) : (g.newEdge source target type properties).1.Sound := by
  cases checked : g.edgeIndexes.checkAll? properties with
  | error e => simpa [Graph.newEdge, checked] using h
  | ok =>
      cases added : g.store.addEdge source target type properties with
      | error e => simpa [Graph.newEdge, checked, added] using h
      | ok result =>
          obtain ⟨store, id⟩ := result
          obtain ⟨indexes, inserted⟩ := IndexCatalog.exists_insertAll id checked
          have update := Store.edge?_addEdge added
          have nodes : store.node? = g.store.node? := funext (Store.node?_addEdge added)
          obtain ⟨-, -, size, -, -⟩ := Store.addEdge_eq_ok added
          have fresh : g.store.edge? id = none := Store.edge?_eq_none_of_size size
          have after : (g.newEdge source target type properties).1 =
              { g with store, edgeIndexes := indexes, buckets := g.buckets.addEdge id type } := by
            simp only [Graph.newEdge, checked, added, inserted]
          rw [after]
          refine ⟨h.store.addEdge added, ?_, ?_, ?_⟩
          · refine (h.buckets.addEdge id type).congr (fun n label => ?_) (fun n => ?_)
              fun e t => ?_
            · simp only [NodeCarries, node?, nodes]
            · simp only [NodeBare, node?, nodes]
            · refine Iff.trans ?_ (exists_update update (fun edge => edge.type = t) e).symm
              by_cases same : e = id
              · simp [same, EdgeTyped, edge?, fresh, eq_comm]
              · simp [same, EdgeTyped, edge?]
          · show g.nodeIndexes.Sound (NodeHolds store.node?)
            rw [nodes]
            exact h.nodeIndexes
          · refine (h.edgeIndexes.insertAll inserted).congr fun key value e => ?_
            refine Iff.trans ?_
              (exists_update update (fun edge => edge.properties[key]? = some value) e).symm
            by_cases same : e = id
            · simp [same, EdgeHolds, edge?, fresh]
            · simp [same, EdgeHolds, edge?]

theorem Sound.withEdgeProperties (h : g.Sound) {id : EdgeId} {edge : Edge}
    (found : g.edge? id = some edge) (properties : Properties) {indexes : IndexCatalog EdgeId}
    (mirror : ∀ update : EdgeId → Option Edge,
      (∀ e, update e = if e = id then some { edge with properties } else g.edge? e) →
        indexes.Sound (EdgeHolds update)) :
    Sound { g with edgeIndexes := indexes, store := g.store.setEdge id { edge with properties } } := by
  have update := Store.edge?_setEdge found { edge with properties }
  refine ⟨h.store.setEdge found (h.store.edgeId found :) rfl rfl rfl, ?_, h.nodeIndexes,
    mirror _ update⟩
  refine h.buckets.congr (fun _ _ => Iff.rfl) (fun _ => Iff.rfl) fun e t => ?_
  refine Iff.trans ?_ (exists_update update (fun edge => edge.type = t) e).symm
  by_cases same : e = id
  · simp [same, EdgeTyped, found]
  · simp [same, EdgeTyped, edge?]

theorem edgeHolds_old {id : EdgeId} {edge : Edge} (found : g.edge? id = some edge) {key : String}
    {value : PropertyValue} (old : edge.property? key = some value) :
    EdgeHolds g.edge? key value id := ⟨edge, found, old⟩

theorem Sound.setEdgeProperty (h : g.Sound) (id : EdgeId) (key : String) (value : PropertyValue) :
    (g.setEdgeProperty id key value).1.Sound := by
  cases found : g.edge? id with
  | none => simpa [Graph.setEdgeProperty, found] using h
  | some edge =>
      cases replaced : g.edgeIndexes.replace key (edge.property? key) value id with
      | mk indexes result =>
          cases result with
          | error e =>
              have kept := h.edgeIndexes.replace_error (fun _ old => edgeHolds_old found old) replaced
              simpa [Graph.setEdgeProperty, found, replaced] using
                (⟨h.store, h.buckets, h.nodeIndexes, kept⟩ : Sound { g with edgeIndexes := indexes })
          | ok =>
              simp only [Graph.setEdgeProperty, found, replaced]
              refine h.withEdgeProperties found _ fun update eq => ?_
              refine (h.edgeIndexes.replace replaced).congr fun k v e => ?_
              refine Iff.trans ?_
                (exists_update eq (fun edge => edge.properties[k]? = some v) e).symm
              by_cases same : e = id
              · by_cases at_key : key = k
                · simp [same, at_key, EdgeHolds, found, Edge.property?, eq_comm]
                · simp [same, at_key, Ne.symm at_key, EdgeHolds, found, Edge.property?,
                    Std.ExtTreeMap.getElem?_insert]
              · simp [same, EdgeHolds]

theorem Sound.removeEdgeProperty (h : g.Sound) (id : EdgeId) (key : String) :
    (g.removeEdgeProperty id key).1.Sound := by
  cases found : g.edge? id with
  | none => simpa [Graph.removeEdgeProperty, found] using h
  | some edge =>
      cases there : edge.property? key with
      | none => simpa [Graph.removeEdgeProperty, found, there] using h
      | some old =>
          simp only [Graph.removeEdgeProperty, found, there]
          refine h.withEdgeProperties found _ fun update eq => ?_
          refine (h.edgeIndexes.remove key old id).congr fun k v e => ?_
          refine Iff.trans ?_ (exists_update eq (fun edge => edge.properties[k]? = some v) e).symm
          rw [Edge.property?] at there
          by_cases same : e = id
          · by_cases at_key : key = k
            · subst at_key
              simp [same, EdgeHolds, found, there, eq_comm]
            · simp [same, at_key, Ne.symm at_key, EdgeHolds, found,
                Std.ExtTreeMap.getElem?_erase]
          · simp [same, EdgeHolds]

theorem Sound.setEdgeType (h : g.Sound) (id : EdgeId) (type : EdgeType) :
    (g.setEdgeType id type).1.Sound := by
  cases retyped : g.store.retypeEdge id type with
  | error e => simpa [Graph.setEdgeType, retyped] using h
  | ok result =>
      obtain ⟨store, old⟩ := result
      obtain ⟨sound, same_nodes, edge, found, rfl, update⟩ := h.store.retypeEdge retyped
      have nodes : store.node? = g.store.node? := funext same_nodes
      have found' : g.edge? id = some edge := found
      simp only [Graph.setEdgeType, retyped]
      refine ⟨sound, ?_, ?_, ?_⟩
      · refine ((h.buckets.removeEdge id edge.type).addEdge id type).congr (fun n label => ?_)
          (fun n => ?_) fun e t => ?_
        · simp only [NodeCarries, node?, nodes]
        · simp only [NodeBare, node?, nodes]
        · refine Iff.trans ?_ (exists_update update (fun edge => edge.type = t) e).symm
          by_cases same : e = id
          · simp [same, EdgeTyped, found', eq_comm]
          · simp [same, EdgeTyped, edge?]
      · show g.nodeIndexes.Sound (NodeHolds store.node?)
        rw [nodes]
        exact h.nodeIndexes
      · refine h.edgeIndexes.congr fun key value e => ?_
        refine Iff.trans ?_
          (exists_update update (fun edge => edge.properties[key]? = some value) e).symm
        by_cases same : e = id
        · simp [same, EdgeHolds, found']
        · simp [same, EdgeHolds, edge?]

end Edges

section Removal

theorem foldl_forgetEdge (edges : List Edge) {g : Graph} {labelled : NodeId → Label → Prop}
    {bare : NodeId → Prop} {typed : EdgeId → EdgeType → Prop}
    {holds : String → PropertyValue → EdgeId → Prop} (hb : g.buckets.Sound labelled bare typed)
    (he : g.edgeIndexes.Sound holds) :
    (edges.foldl forgetEdge g).store = g.store ∧
      (edges.foldl forgetEdge g).nodeIndexes = g.nodeIndexes ∧
      (edges.foldl forgetEdge g).buckets.Sound labelled bare
        (fun e t => typed e t ∧ ∀ edge ∈ edges, ¬(t = edge.type ∧ e = edge.id)) ∧
      (edges.foldl forgetEdge g).edgeIndexes.Sound
        (fun k v e => holds k v e ∧
          ∀ edge ∈ edges, ¬(e = edge.id ∧ edge.properties[k]? = some v)) := by
  induction edges generalizing g typed holds with
  | nil => refine ⟨rfl, rfl, hb.congr ?_ ?_ ?_, he.congr ?_⟩ <;> simp
  | cons edge edges ih =>
      have buckets := hb.removeEdge edge.id edge.type
      have indexes := he.removeAll edge.properties edge.id
      obtain ⟨same_store, same_nodes, buckets, indexes⟩ :=
        ih (g := g.forgetEdge edge) buckets indexes
      refine ⟨same_store, same_nodes, ?_, ?_⟩
      · refine buckets.congr (fun _ _ => Iff.rfl) (fun _ => Iff.rfl) fun e t => ?_
        rw [List.forall_mem_cons, and_assoc]
      · refine indexes.congr fun k v e => ?_
        rw [List.forall_mem_cons, and_assoc]

theorem Sound.forgetEdges (h : g.Sound) {store : Store} {edges : List Edge} {ids : List EdgeId}
    (gone : ∀ e, store.edge? e = if e ∈ ids then none else g.edge? e)
    (ids_eq : edges.map Edge.id = ids) (each : ∀ edge ∈ edges, g.edge? edge.id = some edge) :
    let after := edges.foldl forgetEdge { g with store }
    after.store = store ∧ after.nodeIndexes = g.nodeIndexes ∧
      after.buckets.Sound (NodeCarries g.node?) (NodeBare g.node?) (EdgeTyped store.edge?) ∧
      after.edgeIndexes.Sound (EdgeHolds store.edge?) := by
  have listed : ∀ e, e ∈ ids ↔ ∃ edge ∈ edges, edge.id = e := fun e => by
    rw [← ids_eq, List.mem_map]
  have kept : ∀ (p : Edge → Prop) (e : EdgeId),
      ((∃ edge, g.edge? e = some edge ∧ p edge) ∧ ∀ edge ∈ edges, ¬(e = edge.id ∧ p edge)) ↔
        ∃ edge, store.edge? e = some edge ∧ p edge := by
    intro p e
    rw [gone]
    by_cases mem : e ∈ ids
    · obtain ⟨edge, edge_mem, rfl⟩ := (listed e).mp mem
      simp only [mem, ↓reduceIte]
      constructor
      · rintro ⟨⟨record, found, held⟩, free⟩
        rw [each edge edge_mem] at found
        cases found
        exact absurd ⟨rfl, held⟩ (free edge edge_mem)
      · rintro ⟨record, found, -⟩
        cases found
    · simp only [mem, ↓reduceIte]
      refine and_iff_left fun edge edge_mem both => ?_
      exact mem ((listed e).mpr ⟨edge, edge_mem, both.1.symm⟩)
  obtain ⟨same_store, same_nodes, buckets, indexes⟩ :=
    foldl_forgetEdge edges (g := { g with store }) h.buckets h.edgeIndexes
  refine ⟨same_store, same_nodes, ?_, ?_⟩
  · refine buckets.congr (fun _ _ => Iff.rfl) (fun _ => Iff.rfl) fun e t => ?_
    refine Iff.trans (and_congr_right fun _ => ?_) (kept (fun edge => edge.type = t) e)
    simp only [and_comm, eq_comm (a := t)]
  · exact indexes.congr fun k v e => kept (fun edge => edge.properties[k]? = some v) e

theorem Sound.removeEdge (h : g.Sound) (id : EdgeId) : (g.removeEdge id).1.Sound := by
  cases removed : g.store.removeEdge id with
  | error e => simpa [Graph.removeEdge, removed] using h
  | ok result =>
      obtain ⟨store, edge⟩ := result
      obtain ⟨found, -, -⟩ := Store.removeEdge_eq_ok removed
      have found' : g.edge? id = some edge := found
      have same_id : edge.id = id := h.store.edgeId found
      have nodes : store.node? = g.node? := funext (Store.node?_removeEdge removed)
      have gone : ∀ e, store.edge? e = if e ∈ [id] then none else g.edge? e := fun e => by
        rw [Store.edge?_removeEdge removed e]
        simp only [List.mem_singleton]
        rfl
      have same_ids : [edge].map Edge.id = [id] := by rw [List.map_singleton, same_id]
      obtain ⟨-, -, buckets, indexes⟩ := h.forgetEdges gone same_ids
        (by simpa only [List.mem_singleton, forall_eq, same_id] using found')
      rw [← nodes] at buckets
      have mirror := h.nodeIndexes
      rw [← nodes] at mirror
      simp only [Graph.removeEdge, removed]
      exact ⟨h.store.removeEdge removed, buckets, mirror, indexes⟩

theorem Sound.detachNode (h : g.Sound) (id : NodeId) : (g.detachNode id).1.Sound := by
  cases live : g.store.hasNode id with
  | false =>
      have failed := Store.detachNode_of_dead live
      simpa [Graph.detachNode, failed] using h
  | true =>
      obtain ⟨store, edges, detached, sound, same, gone, ids, each⟩ := h.store.detachNode live
      have nodes : store.node? = g.node? := funext same
      obtain ⟨same_store, same_nodes, buckets, indexes⟩ := h.forgetEdges gone ids each
      simp only [Graph.detachNode, detached]
      generalize edges.foldl forgetEdge { g with store } = after at *
      subst same_store
      rw [← nodes] at buckets
      have mirror := h.nodeIndexes
      rw [← nodes, ← same_nodes] at mirror
      exact ⟨sound, buckets, mirror, indexes⟩

theorem Sound.removeNode (h : g.Sound) (id : NodeId) : (g.removeNode id).1.Sound := by
  cases found : g.store.node? id with
  | none =>
      have failed := Store.removeNode_of_dead found
      simpa [Graph.removeNode, failed] using h
  | some node =>
      obtain ⟨store, edges, removed, sound, update, gone, ids, each⟩ := h.store.removeNode found
      obtain ⟨same_store, same_nodes, buckets, indexes⟩ := h.forgetEdges gone ids each
      have found' : g.node? id = some node := found
      simp only [Graph.removeNode, removed]
      generalize edges.foldl forgetEdge { g with store } = after at *
      subst same_store
      refine ⟨sound, ?_, ?_, indexes⟩
      · refine (buckets.removeNode id node.labels).congr (fun n label => ?_) (fun n => ?_)
          fun _ _ => Iff.rfl
        · refine Iff.trans ?_ (exists_update update (fun node => label ∈ node.labels) n).symm
          by_cases eq : n = id
          · simp [eq, NodeCarries, found']
          · simp [eq, NodeCarries, node?]
        · refine Iff.trans ?_ (exists_update update (fun node => node.labels.isEmpty) n).symm
          by_cases eq : n = id
          · simp [eq, NodeBare, found']
          · simp [eq, NodeBare, node?]
      · have mirror := h.nodeIndexes
        rw [← same_nodes] at mirror
        refine (mirror.removeAll node.properties id).congr fun key value n => ?_
        refine Iff.trans ?_
          (exists_update update (fun node => node.properties[key]? = some value) n).symm
        by_cases eq : n = id
        · simp [eq, NodeHolds, found']
        · simp [eq, NodeHolds, node?]

end Removal

section Indexes

def nodeHolders (g : Graph) (key : String) : List (PropertyValue × NodeId) :=
  g.store.liveNodes.filterMap fun node => (node.property? key).map fun value => (value, node.id)

def edgeHolders (g : Graph) (key : String) : List (PropertyValue × EdgeId) :=
  g.store.liveEdges.filterMap fun edge => (edge.property? key).map fun value => (value, edge.id)

theorem Sound.mem_nodeHolders (h : g.Sound) {key : String} {value : PropertyValue} {id : NodeId} :
    (value, id) ∈ g.nodeHolders key ↔ NodeHolds g.node? key value id := by
  simp only [nodeHolders, List.mem_filterMap, Option.map_eq_some_iff, Prod.mk.injEq,
    h.store.mem_liveNodes]
  constructor
  · rintro ⟨node, there, held, has, rfl, rfl⟩
    exact ⟨node, there, has⟩
  · rintro ⟨node, there, has⟩
    have same : node.id = id := h.store.nodeId there
    exact ⟨node, same ▸ there, value, has, rfl, same⟩

theorem Sound.mem_edgeHolders (h : g.Sound) {key : String} {value : PropertyValue} {id : EdgeId} :
    (value, id) ∈ g.edgeHolders key ↔ EdgeHolds g.edge? key value id := by
  simp only [edgeHolders, List.mem_filterMap, Option.map_eq_some_iff, Prod.mk.injEq,
    h.store.mem_liveEdges]
  constructor
  · rintro ⟨edge, there, held, has, rfl, rfl⟩
    exact ⟨edge, there, has⟩
  · rintro ⟨edge, there, has⟩
    have same : edge.id = id := h.store.edgeId there
    exact ⟨edge, same ▸ there, value, has, rfl, same⟩

theorem Sound.addNodeIndex (h : g.Sound) (key : String) : (g.addNodeIndex key).1.Sound :=
  ⟨h.store, h.buckets, h.nodeIndexes.build fun _ _ => h.mem_nodeHolders, h.edgeIndexes⟩

theorem Sound.addEdgeIndex (h : g.Sound) (key : String) : (g.addEdgeIndex key).1.Sound :=
  ⟨h.store, h.buckets, h.nodeIndexes, h.edgeIndexes.build fun _ _ => h.mem_edgeHolders⟩

theorem Sound.dropNodeIndex (h : g.Sound) (key : String) : (g.dropNodeIndex key).1.Sound :=
  ⟨h.store, h.buckets, h.nodeIndexes.erase key, h.edgeIndexes⟩

theorem Sound.dropEdgeIndex (h : g.Sound) (key : String) : (g.dropEdgeIndex key).1.Sound :=
  ⟨h.store, h.buckets, h.nodeIndexes, h.edgeIndexes.erase key⟩

end Indexes

end Graph

end PropertyGraph
