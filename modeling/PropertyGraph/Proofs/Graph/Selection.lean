import PropertyGraph.Graph.Selection
import PropertyGraph.Proofs.Graph.Mirror
import PropertyGraph.Proofs.Value.Comparison

namespace PropertyGraph

section Sift

variable {α ρ : Type} {record? : α → Option ρ} {accepts? : ρ → Except Incomparable Bool}

theorem mem_of_sift {ids : List α} {a : α} (h : .ok a ∈ sift record? accepts? ids) :
    a ∈ ids ∧ ∃ record, record? a = some record ∧ accepts? record = .ok true := by
  induction ids with
  | nil => cases h
  | cons id rest ih =>
      rw [sift] at h
      have later (h : .ok a ∈ sift record? accepts? rest) : a ∈ id :: rest ∧
          ∃ record, record? a = some record ∧ accepts? record = .ok true :=
        ⟨List.mem_cons_of_mem _ (ih h).1, (ih h).2⟩
      split at h
      · exact later h
      · rename_i record found
        split at h
        · rename_i accepted
          rcases List.mem_cons.mp h with same | h
          · cases same
            exact ⟨List.mem_cons_self, record, found, accepted⟩
          · exact later h
        · exact later h
        · cases List.mem_singleton.mp h

theorem mem_sift {ids : List α} (clean : ∀ e, .error e ∉ sift record? accepts? ids) {a : α}
    (mem : a ∈ ids) {record : ρ} (found : record? a = some record)
    (accepted : accepts? record = .ok true) : .ok a ∈ sift record? accepts? ids := by
  induction ids with
  | nil => cases mem
  | cons id rest ih =>
      rw [sift] at clean ⊢
      rcases List.mem_cons.mp mem with rfl | mem
      · simp [found, accepted]
      · split at clean
        · exact ih clean mem
        · split at clean
          · exact List.mem_cons_of_mem _
              (ih (fun e failed => clean e (List.mem_cons_of_mem _ failed)) mem)
          · exact ih clean mem
          · exact absurd List.mem_cons_self (clean _)

theorem nodup_sift {ids : List α} (nodup : ids.Nodup) : (sift record? accepts? ids).Nodup := by
  induction ids with
  | nil => exact .nil
  | cons id rest ih =>
      obtain ⟨fresh, nodup⟩ := List.nodup_cons.mp nodup
      rw [sift]
      split
      · exact ih nodup
      · split
        · exact List.nodup_cons.mpr ⟨fun again => fresh (mem_of_sift again).1, ih nodup⟩
        · exact ih nodup
        · exact List.nodup_singleton _

end Sift

structure Candidates.Covers {α : Type} (c : Candidates α) (p : α → Prop) : Prop where
  nodup : c.items.Nodup
  mem : ∀ a, p a → a ∈ c.items

section Narrowing

variable {α : Type}

theorem better_cases {best : Option (Candidates α)} {c result : Candidates α}
    (h : Candidates.better best c = result) : result = c ∨ best = some result := by
  subst h
  unfold Candidates.better
  split
  · exact .inl rfl
  · split
    · exact .inl rfl
    · exact .inr rfl

variable [Ord α] [Std.TransOrd α]

theorem items_ofHolders {index : PropertyIndex α} {value : PropertyValue}
    {holders : Option (InsertionSet α)} (got : index.get? value = .ok holders) :
    (Candidates.ofHolders holders).items = index.entries.itemsAt value := by
  unfold PropertyIndex.get? at got
  cases checked : index.check? value with
  | error e => simp [checked, Except.map] at got
  | ok =>
      have same : holders = index.entries[value]? := by
        simpa [checked, Except.map, eq_comm] using got
      subst same
      unfold SetMap.itemsAt
      cases index.entries[value]? <;> rfl

theorem narrow?_covers {indexes : IndexCatalog α} {holds : String → PropertyValue → α → Prop}
    (sound : indexes.Sound holds) {p : α → Prop} {constraints : List (String × PropertyValue)}
    (required : ∀ pair ∈ constraints, ∀ a, p a → holds pair.1 pair.2 a)
    {best result : Option (Candidates α)} (covers : ∀ c, best = some c → c.Covers p)
    (narrowed : indexes.narrow? best constraints = .ok result) :
    ∀ c, result = some c → c.Covers p := by
  induction constraints generalizing best with
  | nil =>
      cases narrowed
      exact covers
  | cons pair rest ih =>
      obtain ⟨key, value⟩ := pair
      have required_rest : ∀ pair ∈ rest, ∀ a, p a → holds pair.1 pair.2 a :=
        fun pair mem => required pair (List.mem_cons_of_mem _ mem)
      rw [IndexCatalog.narrow?] at narrowed
      split at narrowed
      · exact ih required_rest covers narrowed
      · rename_i index found
        split at narrowed
        · cases narrowed
        · rename_i holders got
          refine ih required_rest (fun c eq => ?_) narrowed
          rcases better_cases (Option.some.inj eq) with rfl | kept
          · have items := items_ofHolders got
            refine ⟨?_, fun a holds_p => ?_⟩
            · rw [items]
              exact SetMap.nodup_itemsAt _ _
            · rw [items]
              exact (sound key index found).mem.mpr (required _ List.mem_cons_self a holds_p)
          · exact covers c kept

theorem Candidates.ofHolders_eq [Std.LawfulEqOrd α] (holders : Option (InsertionSet α)) :
    ofHolders holders = ⟨listed holders, some (listed holders).length⟩ := by
  cases holders with
  | none => rfl
  | some items => rw [ofHolders, items.size_eq_length, listed_some]

end Narrowing

namespace Graph

variable {g : Graph}

def NodePasses (g : Graph) (filter : NodeFilter) (id : NodeId) : Prop :=
  ∃ node, g.node? id = some node ∧ filter.Admits node

def EdgePasses (g : Graph) (filter : EdgeFilter) (id : EdgeId) : Prop :=
  ∃ edge, g.edge? id = some edge ∧ filter.Admits edge

theorem Sound.nodeCandidates?_covers (h : g.Sound) {filter : NodeFilter} {c : Candidates NodeId}
    (found : g.nodeCandidates? filter = .ok c) : c.Covers (g.NodePasses filter) := by
  unfold nodeCandidates? at found
  cases narrowed : g.nodeIndexes.narrow? (if filter.labels.isEmpty then none
      else some (g.buckets.nodesWithAll filter.labels)) filter.properties with
  | error e =>
      simp only [narrowed] at found
      cases found
  | ok best =>
      have best_covers := narrow?_covers h.nodeIndexes (p := g.NodePasses filter)
        (fun pair mem id passes => by
          obtain ⟨node, there, -, holds⟩ := passes
          exact ⟨node, there, holds pair mem⟩)
        (fun c eq => by
          split at eq
          · cases eq
          · rename_i some_label
            cases eq
            refine ⟨LabelBuckets.nodup_nodesWithAll _ _, fun id passes => ?_⟩
            obtain ⟨node, there, carries, -⟩ := passes
            rw [LabelBuckets.mem_nodesWithAll (by simpa using some_label)]
            exact fun label mem => h.buckets.nodes.mpr ⟨node, there, carries label mem⟩)
        narrowed
      simp only [narrowed, Except.map, Except.ok.injEq] at found
      cases best with
      | some best => exact found ▸ best_covers best rfl
      | none =>
          subst found
          refine ⟨h.store.nodup_nodeIds, fun id passes => ?_⟩
          obtain ⟨node, there, -⟩ := passes
          exact h.store.mem_nodeIds.mpr ⟨node, there⟩

theorem Sound.edgeCandidates?_covers (h : g.Sound) {filter : EdgeFilter} {c : Candidates EdgeId}
    (found : g.edgeCandidates? filter = .ok c) : c.Covers (g.EdgePasses filter) := by
  unfold edgeCandidates? at found
  cases narrowed : g.edgeIndexes.narrow? (if filter.types.isEmpty then none
      else some (g.buckets.edgesWithAny filter.types)) filter.properties with
  | error e =>
      simp only [narrowed] at found
      cases found
  | ok best =>
      have best_covers := narrow?_covers h.edgeIndexes (p := g.EdgePasses filter)
        (fun pair mem id passes => by
          obtain ⟨edge, there, -, holds⟩ := passes
          exact ⟨edge, there, holds pair mem⟩)
        (fun c eq => by
          split at eq
          · cases eq
          · rename_i some_type
            cases eq
            refine ⟨LabelBuckets.nodup_edgesWithAny _ fun {id s t} at_s at_t => ?_,
              fun id passes => ?_⟩
            · obtain ⟨edge, there, type⟩ := h.buckets.edges.mp at_s
              obtain ⟨other, again, type'⟩ := h.buckets.edges.mp at_t
              rw [there] at again
              cases again
              exact type.symm.trans type'
            · obtain ⟨edge, there, typed, -⟩ := passes
              refine (LabelBuckets.mem_edgesWithAny id).mpr ⟨edge.type, typed ?_, ?_⟩
              · simpa using some_type
              · exact h.buckets.edges.mpr ⟨edge, there, rfl⟩)
        narrowed
      simp only [narrowed, Except.map, Except.ok.injEq] at found
      cases best with
      | some best => exact found ▸ best_covers best rfl
      | none =>
          subst found
          refine ⟨h.store.nodup_edgeIds, fun id passes => ?_⟩
          obtain ⟨edge, there, -⟩ := passes
          exact h.store.mem_edgeIds.mpr ⟨edge, there⟩

theorem passes_of_mem_siftNodes {filter : NodeFilter} {ids : List NodeId} {id : NodeId}
    (mem : .ok id ∈ g.siftNodes filter ids) : g.NodePasses filter id := by
  obtain ⟨-, node, there, accepted⟩ := mem_of_sift mem
  exact ⟨node, there, NodeFilter.accepts?_eq_true_iff.mp accepted⟩

theorem passes_of_mem_siftEdges {filter : EdgeFilter} {ids : List EdgeId} {id : EdgeId}
    (mem : .ok id ∈ g.siftEdges filter ids) : g.EdgePasses filter id := by
  obtain ⟨-, edge, there, accepted⟩ := mem_of_sift mem
  exact ⟨edge, there, EdgeFilter.accepts?_eq_true_iff.mp accepted⟩

theorem mem_siftNodes {filter : NodeFilter} {ids : List NodeId}
    (clean : ∀ e, .error e ∉ g.siftNodes filter ids) {id : NodeId} (mem : id ∈ ids)
    (passes : g.NodePasses filter id) : .ok id ∈ g.siftNodes filter ids := by
  obtain ⟨node, there, admits⟩ := passes
  exact mem_sift clean mem there (NodeFilter.accepts?_eq_true_iff.mpr admits)

theorem mem_siftEdges {filter : EdgeFilter} {ids : List EdgeId}
    (clean : ∀ e, .error e ∉ g.siftEdges filter ids) {id : EdgeId} (mem : id ∈ ids)
    (passes : g.EdgePasses filter id) : .ok id ∈ g.siftEdges filter ids := by
  obtain ⟨edge, there, admits⟩ := passes
  exact mem_sift clean mem there (EdgeFilter.accepts?_eq_true_iff.mpr admits)

theorem Sound.nodup_selectNodes? (h : g.Sound) {filter : NodeFilter} {selection : Selection NodeId}
    (selected : g.selectNodes? filter = .ok selection) : selection.items.Nodup := by
  obtain ⟨c, found, rfl⟩ := exists_of_map_eq_ok selected
  exact nodup_sift (h.nodeCandidates?_covers found).nodup

theorem Sound.nodup_selectEdges? (h : g.Sound) {filter : EdgeFilter} {selection : Selection EdgeId}
    (selected : g.selectEdges? filter = .ok selection) : selection.items.Nodup := by
  obtain ⟨c, found, rfl⟩ := exists_of_map_eq_ok selected
  exact nodup_sift (h.edgeCandidates?_covers found).nodup

theorem passes_of_mem_selectNodes? {filter : NodeFilter} {selection : Selection NodeId}
    (selected : g.selectNodes? filter = .ok selection) {id : NodeId}
    (mem : .ok id ∈ selection.items) : g.NodePasses filter id := by
  obtain ⟨c, found, rfl⟩ := exists_of_map_eq_ok selected
  exact passes_of_mem_siftNodes mem

theorem passes_of_mem_selectEdges? {filter : EdgeFilter} {selection : Selection EdgeId}
    (selected : g.selectEdges? filter = .ok selection) {id : EdgeId}
    (mem : .ok id ∈ selection.items) : g.EdgePasses filter id := by
  obtain ⟨c, found, rfl⟩ := exists_of_map_eq_ok selected
  exact passes_of_mem_siftEdges mem

theorem Sound.mem_selectNodes? (h : g.Sound) {filter : NodeFilter} {selection : Selection NodeId}
    (selected : g.selectNodes? filter = .ok selection) (clean : ∀ e, .error e ∉ selection.items)
    {id : NodeId} : .ok id ∈ selection.items ↔ g.NodePasses filter id := by
  refine ⟨passes_of_mem_selectNodes? selected, fun passes => ?_⟩
  obtain ⟨c, found, rfl⟩ := exists_of_map_eq_ok selected
  exact mem_siftNodes clean ((h.nodeCandidates?_covers found).mem id passes) passes

theorem Sound.mem_selectEdges? (h : g.Sound) {filter : EdgeFilter} {selection : Selection EdgeId}
    (selected : g.selectEdges? filter = .ok selection) (clean : ∀ e, .error e ∉ selection.items)
    {id : EdgeId} : .ok id ∈ selection.items ↔ g.EdgePasses filter id := by
  refine ⟨passes_of_mem_selectEdges? selected, fun passes => ?_⟩
  obtain ⟨c, found, rfl⟩ := exists_of_map_eq_ok selected
  exact mem_siftEdges clean ((h.edgeCandidates?_covers found).mem id passes) passes

end Graph

end PropertyGraph
