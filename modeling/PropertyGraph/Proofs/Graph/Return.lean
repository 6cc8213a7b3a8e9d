import PropertyGraph.Proofs.Graph.Likeness
import PropertyGraph.Proofs.Index.Return

namespace PropertyGraph

section Sifting

variable {α ρ : Type} {record? : α → Option ρ} {accepts? : ρ → Except Incomparable Bool}

/-- The same items, perhaps in another order, from paths of one bound. Both fail or neither does. -/
structure Selection.Alike (s t : Selection α) : Prop where
  maxSize : s.maxSize = t.maxSize
  failing : (∃ e, .error e ∈ s.items) ↔ ∃ e, .error e ∈ t.items
  items : (∀ e, .error e ∉ t.items) → s.items.Perm t.items

theorem sift_of_clean {ids : List α} (clean : ∀ e, .error e ∉ sift record? accepts? ids) :
    sift record? accepts? ids = (ids.filter fun a =>
      (record? a).any fun record => accepts? record = .ok true).map .ok := by
  induction ids with
  | nil => rfl
  | cons id rest ih =>
      rw [sift] at clean ⊢
      cases found : record? id with
      | none =>
          simp only [found] at clean ⊢
          rw [ih clean, List.filter_cons_of_neg (by simp [found])]
      | some record =>
          simp only [found] at clean ⊢
          cases accepted : accepts? record with
          | error e => exact absurd (by simp [accepted]) (clean e)
          | ok passes =>
              simp only [accepted] at clean ⊢
              cases passes with
              | false => rw [ih clean, List.filter_cons_of_neg (by simp [found, accepted])]
              | true =>
                  rw [ih fun e failed => clean e (List.mem_cons_of_mem _ failed),
                    List.filter_cons_of_pos (by simp [found, accepted]), List.map_cons]

theorem sift_of_accepts {ids : List α}
    (accepted : ∀ a ∈ ids, ∃ record, record? a = some record ∧ accepts? record = .ok true) :
    sift record? accepts? ids = ids.map .ok := by
  induction ids with
  | nil => rfl
  | cons id rest ih =>
      obtain ⟨⟨record, found, passes⟩, accepted⟩ := List.forall_mem_cons.mp accepted
      simp only [sift, found, passes, ih accepted, List.map_cons]

theorem Candidates.Alike.sift {c d : Candidates α} (h : c.Alike d) :
    Selection.Alike ⟨sift record? accepts? c.items, c.maxSize⟩
      ⟨sift record? accepts? d.items, d.maxSize⟩ where
  maxSize := h.maxSize
  failing := by simp only [failed_sift_iff, h.items.mem_iff]
  items clean := by
    have both : ∀ e, .error e ∉ PropertyGraph.sift record? accepts? c.items := by
      simpa only [← not_exists, failed_sift_iff, h.items.mem_iff] using clean
    simp only [sift_of_clean clean, sift_of_clean both]
    exact (h.items.filter _).map _

end Sifting

namespace IndexCatalog

variable {α : Type} [Ord α] [Std.TransOrd α]

def ReadsAs (indexes others : IndexCatalog α) : Prop :=
  ∀ key : String, Option.Rel (fun index other => index.shape = other.shape ∧
    ∀ value, index.entries.itemsAt value = other.entries.itemsAt value) indexes[key]? others[key]?

variable {indexes fresh others : IndexCatalog α}

theorem ReadsAs.refl (indexes : IndexCatalog α) : indexes.ReadsAs indexes := fun key => by
  cases indexes[key]? with
  | none => exact .none
  | some index => exact .some ⟨rfl, fun _ => rfl⟩

theorem ReadsAs.check? (h : indexes.ReadsAs others) (key : String) (value : PropertyValue) :
    indexes.check? key value = others.check? key value := by
  rw [IndexCatalog.check?, IndexCatalog.check?]
  have reads := h key
  generalize indexes[key]? = found, others[key]? = found' at reads
  cases reads with
  | none => rfl
  | some reads => exact PropertyIndex.check?_of_shape reads.1 value

variable [Std.LawfulEqOrd α]

theorem narrow?_one {key : String} {value : PropertyValue} {index : PropertyIndex α}
    (found : indexes[key]? = some index) (accepted : index.check? value = .ok ()) :
    indexes.narrow? none [(key, value)] =
      .ok (some ⟨index.entries.itemsAt value, some (index.entries.itemsAt value).length⟩) := by
  simp only [narrow?, found, PropertyIndex.get?, accepted, Except.map, Candidates.better,
    Candidates.ofHolders_eq]
  rfl

def Renews (fresh indexes : IndexCatalog α) : Prop :=
  ∀ key : String, Option.Rel PropertyIndex.Renews fresh[key]? indexes[key]?

theorem Renews.refl (indexes : IndexCatalog α) : indexes.Renews indexes := fun key => by
  cases indexes[key]? with
  | none => exact .none
  | some index => exact .some (.refl index)

theorem Renews.narrow? (h : fresh.Renews indexes) {best best' : Option (Candidates α)}
    (bests : Option.Rel Candidates.Alike best best') {constraints : List (String × PropertyValue)}
    {result : Option (Candidates α)} (narrowed : indexes.narrow? best' constraints = .ok result) :
    ∃ renewed, fresh.narrow? best constraints = .ok renewed ∧
      Option.Rel Candidates.Alike renewed result := by
  induction constraints generalizing best best' with
  | nil =>
      cases narrowed
      exact ⟨best, rfl, bests⟩
  | cons pair rest ih =>
      obtain ⟨key, value⟩ := pair
      rw [IndexCatalog.narrow?] at narrowed ⊢
      have renews := h key
      generalize fresh[key]? = found, indexes[key]? = found' at renews narrowed
      cases renews with
      | none => exact ih bests narrowed
      | @some index other renews =>
          simp only [PropertyIndex.get?] at narrowed ⊢
          cases checked : other.check? value with
          | error e =>
              rw [checked] at narrowed
              cases narrowed
          | ok =>
              rw [checked] at narrowed
              rw [renews.accepts value checked]
              exact ih (.some (.better bests (Candidates.alike_ofHolders (renews.holds value))))
                narrowed

theorem ReadsAs.narrow? (h : indexes.ReadsAs others) (best : Option (Candidates α))
    (constraints : List (String × PropertyValue)) :
    indexes.narrow? best constraints = others.narrow? best constraints := by
  induction constraints generalizing best with
  | nil => rfl
  | cons pair rest ih =>
      obtain ⟨key, value⟩ := pair
      rw [IndexCatalog.narrow?, IndexCatalog.narrow?]
      have reads := h key
      generalize indexes[key]? = found, others[key]? = found' at reads
      cases reads with
      | none => exact ih best
      | @some index other reads =>
          obtain ⟨shape, holders⟩ := reads
          have same : Candidates.ofHolders index.entries[value]? =
              Candidates.ofHolders other.entries[value]? := by
            have lists : listed index.entries[value]? = listed other.entries[value]? := holders value
            rw [Candidates.ofHolders_eq, Candidates.ofHolders_eq, lists]
          simp only [PropertyIndex.get?, PropertyIndex.check?_of_shape shape value]
          cases other.check? value with
          | error e => rfl
          | ok => simp only [Except.map, same, ih]

end IndexCatalog

theorem PropertyIndex.Renews.shape_of_check? {α : Type} [Ord α] [Std.TransOrd α]
    [Std.LawfulEqOrd α] {indexes : IndexCatalog α} {key : String} {returned index : PropertyIndex α}
    (h : returned.Renews index) (found : indexes[key]? = some index)
    (same : IndexCatalog.check? (Std.ExtTreeMap.insert indexes key returned) = indexes.check?) :
    returned.shape = index.shape := by
  refine h.alike.mp fun other => ?_
  have checks := congrFun (congrFun same key) other
  simp only [IndexCatalog.check?, found, Std.ExtTreeMap.getElem?_insert_self] at checks
  rw [checks]

namespace Graph

variable {g other : Graph}

theorem siftNodes_of_store (store : g.store = other.store) : g.siftNodes = other.siftNodes := by
  funext filter ids
  rw [siftNodes, siftNodes, show g.node? = other.node? from funext fun id => by rw [node?, node?, store]]

theorem siftEdges_of_store (store : g.store = other.store) : g.siftEdges = other.siftEdges := by
  funext filter ids
  rw [siftEdges, siftEdges, show g.edge? = other.edge? from funext fun id => by rw [edge?, edge?, store]]

theorem selectNodes?_of_renews (store : g.store = other.store) (buckets : g.buckets = other.buckets)
    (renews : g.nodeIndexes.Renews other.nodeIndexes) {filter : NodeFilter}
    {selection : Selection NodeId} (selected : other.selectNodes? filter = .ok selection) :
    ∃ again, g.selectNodes? filter = .ok again ∧ again.Alike selection := by
  obtain ⟨c, found, rfl⟩ := exists_of_map_eq_ok selected
  obtain ⟨best, narrowed, rfl⟩ := exists_of_map_eq_ok found
  obtain ⟨renewed, again, alike⟩ := renews.narrow? (Candidates.rel_self _) narrowed
  rw [selectNodes?, nodeCandidates?, store, buckets, again, siftNodes_of_store store]
  exact ⟨_, rfl, (Candidates.Alike.getD _ alike).sift⟩

theorem selectEdges?_of_renews (store : g.store = other.store) (buckets : g.buckets = other.buckets)
    (renews : g.edgeIndexes.Renews other.edgeIndexes) {filter : EdgeFilter}
    {selection : Selection EdgeId} (selected : other.selectEdges? filter = .ok selection) :
    ∃ again, g.selectEdges? filter = .ok again ∧ again.Alike selection := by
  obtain ⟨c, found, rfl⟩ := exists_of_map_eq_ok selected
  obtain ⟨best, narrowed, rfl⟩ := exists_of_map_eq_ok found
  obtain ⟨renewed, again, alike⟩ := renews.narrow? (Candidates.rel_self _) narrowed
  rw [selectEdges?, edgeCandidates?, store, buckets, again, siftEdges_of_store store]
  exact ⟨_, rfl, (Candidates.Alike.getD _ alike).sift⟩

section OneValue

variable {key : String} {value : PropertyValue}

theorem Sound.selectNodes?_one (h : g.Sound) {index : PropertyIndex NodeId}
    (found : g.nodeIndexes[key]? = some index) (accepted : index.check? value = .ok ()) :
    g.selectNodes? ⟨[], [(key, value)]⟩ = .ok ⟨(index.entries.itemsAt value).map .ok,
      some (index.entries.itemsAt value).length⟩ := by
  have passes : ∀ id ∈ index.entries.itemsAt value, ∃ node, g.node? id = some node ∧
      NodeFilter.accepts? ⟨[], [(key, value)]⟩ node = .ok true := by
    intro id mem
    obtain ⟨node, there, holds⟩ := (h.nodeIndexes key index found).mem.mp mem
    refine ⟨node, there, NodeFilter.accepts?_eq_true_iff.mpr ⟨nofun, fun pair asked => ?_⟩⟩
    cases List.mem_singleton.mp asked
    exact holds
  rw [selectNodes?, nodeCandidates?, List.isEmpty_nil, if_pos rfl,
    IndexCatalog.narrow?_one found accepted]
  simp only [Except.map, Option.getD_some]
  rw [siftNodes, ← sift_of_accepts passes]

theorem Sound.selectEdges?_one (h : g.Sound) {index : PropertyIndex EdgeId}
    (found : g.edgeIndexes[key]? = some index) (accepted : index.check? value = .ok ()) :
    g.selectEdges? ⟨[], [(key, value)]⟩ = .ok ⟨(index.entries.itemsAt value).map .ok,
      some (index.entries.itemsAt value).length⟩ := by
  have passes : ∀ id ∈ index.entries.itemsAt value, ∃ edge, g.edge? id = some edge ∧
      EdgeFilter.accepts? ⟨[], [(key, value)]⟩ edge = .ok true := by
    intro id mem
    obtain ⟨edge, there, holds⟩ := (h.edgeIndexes key index found).mem.mp mem
    refine ⟨edge, there, EdgeFilter.accepts?_eq_true_iff.mpr ⟨nofun, fun pair asked => ?_⟩⟩
    cases List.mem_singleton.mp asked
    exact holds
  rw [selectEdges?, edgeCandidates?, List.isEmpty_nil, if_pos rfl,
    IndexCatalog.narrow?_one found accepted]
  simp only [Except.map, Option.getD_some]
  rw [siftEdges, ← sift_of_accepts passes]

end OneValue

structure SameCandidates (g other : Graph) : Prop where
  store : g.store = other.store
  nodes : ∀ filter, g.nodeCandidates? filter = other.nodeCandidates? filter
  edges : ∀ filter, g.edgeCandidates? filter = other.edgeCandidates? filter

theorem sameCandidates_of_readsAs (store : g.store = other.store) (buckets : g.buckets = other.buckets)
    (nodeIndexes : g.nodeIndexes.ReadsAs other.nodeIndexes)
    (edgeIndexes : g.edgeIndexes.ReadsAs other.edgeIndexes) : g.SameCandidates other where
  store := store
  nodes filter := by rw [nodeCandidates?, nodeCandidates?, store, buckets, nodeIndexes.narrow?]
  edges filter := by rw [edgeCandidates?, edgeCandidates?, store, buckets, edgeIndexes.narrow?]

theorem SameCandidates.selectNodes? (h : g.SameCandidates other) :
    g.selectNodes? = other.selectNodes? := by
  funext filter
  rw [Graph.selectNodes?, Graph.selectNodes?, h.nodes, siftNodes_of_store h.store]

theorem SameCandidates.selectEdges? (h : g.SameCandidates other) :
    g.selectEdges? = other.selectEdges? := by
  funext filter
  rw [Graph.selectEdges?, Graph.selectEdges?, h.edges, siftEdges_of_store h.store]

theorem SameCandidates.estimateNodes? (h : g.SameCandidates other) :
    g.estimateNodes? = other.estimateNodes? := by
  funext filter
  rw [Graph.estimateNodes?, Graph.estimateNodes?, h.nodes]

theorem SameCandidates.estimateEdges? (h : g.SameCandidates other) :
    g.estimateEdges? = other.estimateEdges? := by
  funext filter
  rw [Graph.estimateEdges?, Graph.estimateEdges?, h.edges]

end Graph

end PropertyGraph
