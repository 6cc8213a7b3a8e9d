import PropertyGraph.Proofs.Graph.Reachable
import PropertyGraph.Proofs.Graph.Selection

namespace PropertyGraph

variable {α : Type}

def Candidates.Bounded (c : Candidates α) : Prop :=
  ∃ n, c.maxSize = some n ∧ c.items.length ≤ n

theorem bounded_of_ite {unasked : Bool} {c : Candidates α} (bounded : c.Bounded) :
    ∀ b, (if unasked then none else some c) = some b → b.Bounded := by
  intro b eq
  split at eq
  · cases eq
  · cases eq
    exact bounded

theorem length_sift_le {ρ : Type} (record? : α → Option ρ) (accepts? : ρ → Except Incomparable Bool)
    (ids : List α) : (sift record? accepts? ids).length ≤ ids.length := by
  induction ids with
  | nil => exact Nat.le_refl 0
  | cons id rest ih =>
      rw [sift]
      split
      · exact Nat.le_succ_of_le ih
      · split
        · exact Nat.succ_le_succ ih
        · exact Nat.le_succ_of_le ih
        · exact Nat.succ_le_succ (Nat.zero_le _)

section Paths

variable [Ord α] [Std.TransOrd α]

theorem narrow?_eq_none_iff {indexes : IndexCatalog α} {constraints : List (String × PropertyValue)}
    {best result : Option (Candidates α)}
    (narrowed : indexes.narrow? best constraints = .ok result) :
    result = none ↔ best = none ∧ ∀ pair ∈ constraints, pair.1 ∉ indexes := by
  induction constraints generalizing best with
  | nil =>
      cases narrowed
      simp
  | cons pair rest ih =>
      obtain ⟨key, value⟩ := pair
      rw [IndexCatalog.narrow?] at narrowed
      rw [List.forall_mem_cons]
      split at narrowed
      · rename_i absent
        have unindexed : key ∉ indexes := fun there => by
          rw [Std.ExtTreeMap.mem_iff_isSome_getElem?, absent] at there
          cases there
        rw [ih narrowed]
        simp [unindexed]
      · rename_i index found
        have indexed : key ∈ indexes := Std.ExtTreeMap.mem_iff_isSome_getElem?.mpr (by rw [found]; rfl)
        -- From the first index on there is a best path, which later ones can only replace.
        split at narrowed
        · cases narrowed
        · rw [ih narrowed]
          simp [indexed]

variable [Std.LawfulEqOrd α]

theorem LabelBuckets.bounded_nodesWithAll (b : LabelBuckets) (labels : List Label) :
    (b.nodesWithAll labels).Bounded := by
  unfold nodesWithAll
  split
  · exact ⟨0, rfl, Nat.le_refl 0⟩
  · exact ⟨0, rfl, Nat.le_refl 0⟩
  · refine ⟨_, rfl, (List.length_filter_le _ _).trans_eq ?_⟩
    rw [InsertionSet.size_eq_length]

theorem LabelBuckets.bounded_edgesWithAny (b : LabelBuckets) (types : List EdgeType) :
    (b.edgesWithAny types).Bounded :=
  ⟨_, rfl, (totalSize_eq_length _).ge⟩

theorem bounded_ofHolders (holders : Option (InsertionSet α)) :
    (Candidates.ofHolders holders).Bounded := by
  rw [Candidates.ofHolders_eq]
  exact ⟨_, rfl, Nat.le_refl _⟩

theorem narrow?_bounded {indexes : IndexCatalog α} {constraints : List (String × PropertyValue)}
    {best result : Option (Candidates α)} (bounded : ∀ c, best = some c → c.Bounded)
    (narrowed : indexes.narrow? best constraints = .ok result) :
    ∀ c, result = some c → c.Bounded := by
  induction constraints generalizing best with
  | nil =>
      cases narrowed
      exact bounded
  | cons pair rest ih =>
      rw [IndexCatalog.narrow?] at narrowed
      split at narrowed
      · exact ih bounded narrowed
      · split at narrowed
        · cases narrowed
        · refine ih (fun c eq => ?_) narrowed
          rcases better_cases (Option.some.inj eq) with rfl | kept
          · exact bounded_ofHolders _
          · exact bounded c kept

theorem narrowed_bounds {indexes : IndexCatalog α} {constraints : List (String × PropertyValue)}
    {best : Option (Candidates α)} {all : List α} {c : Candidates α}
    (bounded : ∀ c, best = some c → c.Bounded)
    (found : (indexes.narrow? best constraints).map (·.getD ⟨all, none⟩) = .ok c) :
    (c.maxSize = none ↔ best = none ∧ ∀ pair ∈ constraints, pair.1 ∉ indexes) ∧
      ∀ n, c.maxSize = some n → c.items.length ≤ n := by
  obtain ⟨result, narrowed, rfl⟩ := exists_of_map_eq_ok found
  rw [← narrow?_eq_none_iff narrowed]
  cases result with
  | none => simp
  | some c =>
      obtain ⟨n, max, fits⟩ := narrow?_bounded bounded narrowed c rfl
      simp [max, fits]

end Paths

structure Selection.Exact (selection : Selection α) (passes : α → Prop) : Prop where
  once : selection.items.Nodup
  mem : ∀ a, .ok a ∈ selection.items ↔ passes a
  bound : ∀ n, selection.maxSize = some n → selection.items.length ≤ n

namespace Graph

variable {g : Graph}

theorem nodeCandidates?_bounds {filter : NodeFilter} {c : Candidates NodeId}
    (found : g.nodeCandidates? filter = .ok c) :
    (c.maxSize = none ↔ filter.labels = [] ∧ ∀ pair ∈ filter.properties, pair.1 ∉ g.nodeIndexes) ∧
      ∀ n, c.maxSize = some n → c.items.length ≤ n := by
  obtain ⟨unbounded, bound⟩ :=
    narrowed_bounds (bounded_of_ite (g.buckets.bounded_nodesWithAll filter.labels)) found
  rw [unbounded]
  exact ⟨by simp, bound⟩

theorem edgeCandidates?_bounds {filter : EdgeFilter} {c : Candidates EdgeId}
    (found : g.edgeCandidates? filter = .ok c) :
    (c.maxSize = none ↔ filter.types = [] ∧ ∀ pair ∈ filter.properties, pair.1 ∉ g.edgeIndexes) ∧
      ∀ n, c.maxSize = some n → c.items.length ≤ n := by
  obtain ⟨unbounded, bound⟩ :=
    narrowed_bounds (bounded_of_ite (g.buckets.bounded_edgesWithAny filter.types)) found
  rw [unbounded]
  exact ⟨by simp, bound⟩

theorem Sound.selectNodes?_exact (h : g.Sound) {filter : NodeFilter} {selection : Selection NodeId}
    (selected : g.selectNodes? filter = .ok selection) (clean : ∀ e, .error e ∉ selection.items) :
    selection.Exact fun id => ∃ node, g.node? id = some node ∧ filter.accepts? node = .ok true where
  once := h.nodup_selectNodes? selected
  mem id := by
    rw [h.mem_selectNodes? selected clean]
    simp only [NodePasses, NodeFilter.accepts?_eq_true_iff]
  bound n max := by
    obtain ⟨c, found, rfl⟩ := exists_of_map_eq_ok selected
    exact (length_sift_le _ _ _).trans ((nodeCandidates?_bounds found).2 n max)

theorem Sound.selectEdges?_exact (h : g.Sound) {filter : EdgeFilter} {selection : Selection EdgeId}
    (selected : g.selectEdges? filter = .ok selection) (clean : ∀ e, .error e ∉ selection.items) :
    selection.Exact fun id => ∃ edge, g.edge? id = some edge ∧ filter.accepts? edge = .ok true where
  once := h.nodup_selectEdges? selected
  mem id := by
    rw [h.mem_selectEdges? selected clean]
    simp only [EdgePasses, EdgeFilter.accepts?_eq_true_iff]
  bound n max := by
    obtain ⟨c, found, rfl⟩ := exists_of_map_eq_ok selected
    exact (length_sift_le _ _ _).trans ((edgeCandidates?_bounds found).2 n max)

theorem Reachable.lookups_exact (reachable : g.Reachable) :
    (∀ filter selection, g.selectNodes? filter = .ok selection →
      (selection.maxSize = none ↔
        filter.labels = [] ∧ ∀ pair ∈ filter.properties, pair.1 ∉ g.nodeIndexes) ∧
      ((∀ e, .error e ∉ selection.items) → selection.Exact fun id =>
        ∃ node, g.node? id = some node ∧ filter.accepts? node = .ok true)) ∧
    (∀ filter selection, g.selectEdges? filter = .ok selection →
      (selection.maxSize = none ↔
        filter.types = [] ∧ ∀ pair ∈ filter.properties, pair.1 ∉ g.edgeIndexes) ∧
      ((∀ e, .error e ∉ selection.items) → selection.Exact fun id =>
        ∃ edge, g.edge? id = some edge ∧ filter.accepts? edge = .ok true)) := by
  refine ⟨fun filter selection selected => ⟨?_, reachable.sound.selectNodes?_exact selected⟩,
    fun filter selection selected => ⟨?_, reachable.sound.selectEdges?_exact selected⟩⟩
  · obtain ⟨c, found, rfl⟩ := exists_of_map_eq_ok selected
    exact (nodeCandidates?_bounds found).1
  · obtain ⟨c, found, rfl⟩ := exists_of_map_eq_ok selected
    exact (edgeCandidates?_bounds found).1

def labelledOne : NodeFilter := ⟨[⟨"A"⟩], [("k", .integer 1)]⟩

def anyEdge : EdgeFilter := ⟨[], []⟩

theorem lookups_exact_indexed :
    indexed.Reachable ∧ indexed.selectNodes? labelledOne = .ok ⟨[.ok ⟨0⟩], some 1⟩ ∧
      indexed.selectEdges? anyEdge = .ok ⟨[.ok ⟨0⟩], none⟩ ∧
      (Selection.Exact ⟨[.ok ⟨0⟩], some 1⟩ fun id =>
        ∃ node, indexed.node? id = some node ∧ labelledOne.accepts? node = .ok true) ∧
      (anyEdge.types = [] ∧ ∀ pair ∈ anyEdge.properties, pair.1 ∉ indexed.edgeIndexes) ∧
      Selection.Exact ⟨[.ok ⟨0⟩], none⟩ fun id =>
        ∃ edge, indexed.edge? id = some edge ∧ anyEdge.accepts? edge = .ok true := by
  -- The index holds one node of the two in the bucket, so it is walked; the edges are all looked at.
  have nodes : indexed.selectNodes? labelledOne = .ok ⟨[.ok ⟨0⟩], some 1⟩ := rfl
  have edges : indexed.selectEdges? anyEdge = .ok ⟨[.ok ⟨0⟩], none⟩ := rfl
  obtain ⟨at_nodes, at_edges⟩ := Reachable.lookups_exact reachable_indexed
  obtain ⟨unbounded, exact_edges⟩ := at_edges _ _ edges
  exact ⟨reachable_indexed, nodes, edges, (at_nodes _ _ nodes).2 (by simp), unbounded.mp rfl,
    exact_edges (by simp)⟩

end Graph

end PropertyGraph
