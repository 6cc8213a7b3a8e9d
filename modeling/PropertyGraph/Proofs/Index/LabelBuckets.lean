import PropertyGraph.Index.LabelBuckets
import PropertyGraph.Proofs.Container.SetMap
import Mathlib.Tactic.Common

namespace PropertyGraph

namespace LabelBuckets

structure Sound (b : LabelBuckets) (labelled : NodeId → Label → Prop) (bare : NodeId → Prop)
    (typed : EdgeId → EdgeType → Prop) : Prop where
  nodes : ∀ {id label}, id ∈ b.nodes.itemsAt label ↔ labelled id label
  unlabeled : ∀ {id}, id ∈ b.unlabeled.toList ↔ bare id
  edges : ∀ {id type}, id ∈ b.edges.itemsAt type ↔ typed id type
  nodesFilled : b.nodes.Filled
  edgesFilled : b.edges.Filled

theorem sound_empty : (∅ : LabelBuckets).Sound (fun _ _ => False) (fun _ => False)
    fun _ _ => False where
  nodes := iff_of_false (by
    change _ ∉ SetMap.itemsAt ∅ _
    simp) id
  unlabeled := iff_of_false List.not_mem_nil id
  edges := iff_of_false (by
    change _ ∉ SetMap.itemsAt ∅ _
    simp) id
  nodesFilled := SetMap.filled_empty
  edgesFilled := SetMap.filled_empty

section Change

variable {b : LabelBuckets} {labelled labelled' : NodeId → Label → Prop}
variable {bare bare' : NodeId → Prop} {typed typed' : EdgeId → EdgeType → Prop}

theorem Sound.congr (h : b.Sound labelled bare typed)
    (hl : ∀ id label, labelled id label ↔ labelled' id label) (hb : ∀ id, bare id ↔ bare' id)
    (ht : ∀ id type, typed id type ↔ typed' id type) : b.Sound labelled' bare' typed' where
  nodes := h.nodes.trans (hl _ _)
  unlabeled := h.unlabeled.trans (hb _)
  edges := h.edges.trans (ht _ _)
  nodesFilled := h.nodesFilled
  edgesFilled := h.edgesFilled

theorem mem_foldl_insertAt {m : SetMap Label NodeId compare} {labels : List Label} {id other : NodeId}
    {label : Label} : other ∈ (labels.foldl (SetMap.insertAt · · id) m).itemsAt label ↔
      (other = id ∧ label ∈ labels) ∨ other ∈ m.itemsAt label := by
  induction labels generalizing m with
  | nil => simp
  | cons first rest ih =>
      rw [List.foldl_cons, ih, SetMap.mem_itemsAt_insertAt, List.mem_cons]
      tauto

theorem mem_foldl_eraseAt {m : SetMap Label NodeId compare} {labels : List Label} {id other : NodeId}
    {label : Label} : other ∈ (labels.foldl (SetMap.eraseAt · · id) m).itemsAt label ↔
      other ∈ m.itemsAt label ∧ ¬(other = id ∧ label ∈ labels) := by
  induction labels generalizing m with
  | nil => simp
  | cons first rest ih =>
      rw [List.foldl_cons, ih, SetMap.mem_itemsAt_eraseAt, List.mem_cons]
      tauto

theorem filled_foldl {m : SetMap Label NodeId compare} (h : m.Filled)
    {change : SetMap Label NodeId compare → Label → SetMap Label NodeId compare}
    (keeps : ∀ m label, m.Filled → (change m label).Filled) (labels : List Label) :
    (labels.foldl change m).Filled := by
  induction labels generalizing m with
  | nil => exact h
  | cons first rest ih => exact ih (keeps m first h)

theorem mem_labels_toList {labels : LabelSet} {label : Label} :
    label ∈ labels.toList ↔ label ∈ labels := Std.ExtTreeSet.mem_toList

theorem not_mem_of_isEmpty {labels : LabelSet} (h : labels.isEmpty = true) (label : Label) :
    label ∉ labels := by
  rw [Std.ExtTreeSet.isEmpty_iff.mp h]
  exact Std.ExtTreeSet.not_mem_empty

theorem Sound.addNode (h : b.Sound labelled bare typed) (id : NodeId) (labels : LabelSet) :
    (b.addNode id labels).Sound
      (fun n label => (n = id ∧ label ∈ labels) ∨ labelled n label)
      (fun n => (n = id ∧ labels.isEmpty = true) ∨ bare n) typed := by
  unfold LabelBuckets.addNode
  by_cases empty : labels.isEmpty
  · rw [if_pos empty]
    refine ⟨?_, ?_, h.edges, h.nodesFilled, h.edgesFilled⟩
    · intro n label
      simp [h.nodes, not_mem_of_isEmpty empty]
    · intro n
      simp [InsertionSet.mem_insert, h.unlabeled, empty]
  · rw [if_neg empty]
    refine ⟨?_, ?_, h.edges, filled_foldl h.nodesFilled (fun m label hm =>
      SetMap.filled_insertAt hm label id) _, h.edgesFilled⟩
    · intro n label
      rw [mem_foldl_insertAt, h.nodes, mem_labels_toList]
    · intro n
      simp [h.unlabeled, empty]

theorem Sound.removeNode (h : b.Sound labelled bare typed) (id : NodeId) (labels : LabelSet) :
    (b.removeNode id labels).Sound
      (fun n label => labelled n label ∧ ¬(n = id ∧ label ∈ labels))
      (fun n => bare n ∧ ¬(n = id ∧ labels.isEmpty = true)) typed := by
  unfold LabelBuckets.removeNode
  by_cases empty : labels.isEmpty
  · rw [if_pos empty]
    refine ⟨?_, ?_, h.edges, h.nodesFilled, h.edgesFilled⟩
    · intro n label
      simp [h.nodes, not_mem_of_isEmpty empty]
    · intro n
      simp [InsertionSet.mem_erase, h.unlabeled, empty]
  · rw [if_neg empty]
    refine ⟨?_, ?_, h.edges, filled_foldl h.nodesFilled (fun m label hm =>
      SetMap.filled_eraseAt hm label id) _, h.edgesFilled⟩
    · intro n label
      rw [mem_foldl_eraseAt, h.nodes, mem_labels_toList]
    · intro n
      simp [h.unlabeled, empty]

theorem Sound.addEdge (h : b.Sound labelled bare typed) (id : EdgeId) (type : EdgeType) :
    (b.addEdge id type).Sound labelled bare
      fun e t => (t = type ∧ e = id) ∨ typed e t where
  nodes := h.nodes
  unlabeled := h.unlabeled
  edges := by
    intro e t
    rw [LabelBuckets.addEdge, SetMap.mem_itemsAt_insertAt, h.edges]
  nodesFilled := h.nodesFilled
  edgesFilled := SetMap.filled_insertAt h.edgesFilled type id

theorem Sound.removeEdge (h : b.Sound labelled bare typed) (id : EdgeId) (type : EdgeType) :
    (b.removeEdge id type).Sound labelled bare
      fun e t => typed e t ∧ ¬(t = type ∧ e = id) where
  nodes := h.nodes
  unlabeled := h.unlabeled
  edges := by
    intro e t
    rw [LabelBuckets.removeEdge, SetMap.mem_itemsAt_eraseAt, h.edges]
  nodesFilled := h.nodesFilled
  edgesFilled := SetMap.filled_eraseAt h.edgesFilled type id

end Change

section Lookup

variable {α : Type} [Ord α] [Std.TransOrd α]

theorem smallest_mem (least : InsertionSet α × Nat) (sets : List (InsertionSet α × Nat)) :
    smallest least sets ∈ least :: sets := by
  induction sets generalizing least with
  | nil => exact List.mem_cons_self
  | cons s rest ih =>
      rw [smallest]
      split
      · exact List.mem_cons_of_mem _ (ih s)
      · rcases List.mem_cons.mp (ih least) with eq | mem
        · rw [eq]
          exact List.mem_cons_self
        · exact List.mem_cons_of_mem _ (List.mem_cons_of_mem _ mem)

theorem smallest_mem_zipIdx (first : InsertionSet α) (rest : List (InsertionSet α)) :
    smallest (first, 0) (rest.zipIdx 1) ∈ (first :: rest).zipIdx :=
  smallest_mem (first, 0) (rest.zipIdx 1)

/-- The set that is walked need not be asked: no other set stands at its position. -/
theorem forall_mem_of_skipped {sets : List (InsertionSet α)} {least : InsertionSet α × Nat}
    (there : least ∈ sets.zipIdx) {a : α} : (a ∈ least.1.toList ∧
      ∀ s ∈ sets.zipIdx, s.2 = least.2 ∨ a ∈ s.1.toList) ↔ ∀ s ∈ sets, a ∈ s.toList := by
  have at_least := List.mem_zipIdx_iff_getElem?.mp there
  constructor
  · rintro ⟨walked, others⟩ s mem
    obtain ⟨i, at_i⟩ := List.getElem?_of_mem mem
    rcases others (s, i) (List.mem_zipIdx_iff_getElem?.mpr at_i) with rfl | asked
    · rw [at_i] at at_least
      cases at_least
      exact walked
    · exact asked
  · intro all
    have mem {s : InsertionSet α × Nat} (listed : s ∈ sets.zipIdx) : a ∈ s.1.toList :=
      all s.1 (List.mem_of_getElem? (List.mem_zipIdx_iff_getElem?.mp listed))
    exact ⟨mem there, fun s listed => .inr (mem listed)⟩

theorem size_smallest_le [Std.LawfulEqOrd α] (least : InsertionSet α × Nat)
    (sets : List (InsertionSet α × Nat)) :
    ∀ s ∈ least :: sets, (smallest least sets).1.size ≤ s.1.size := by
  induction sets generalizing least with
  | nil => exact List.forall_mem_singleton.mpr (Nat.le_refl _)
  | cons s rest ih =>
      rw [smallest, List.forall_mem_cons, List.forall_mem_cons]
      split
      · rename_i smaller
        obtain ⟨first, others⟩ := List.forall_mem_cons.mp (ih s)
        exact ⟨Nat.le_of_lt (Nat.lt_of_le_of_lt first smaller), first, others⟩
      · rename_i larger
        obtain ⟨first, others⟩ := List.forall_mem_cons.mp (ih least)
        exact ⟨first, Nat.le_trans first (Nat.le_of_not_lt larger), others⟩

theorem map_toList_of_mapM {b : LabelBuckets} {labels : List Label}
    {buckets : List (InsertionSet NodeId)} (h : labels.mapM b.nodeBucket? = some buckets) :
    buckets.map InsertionSet.toList = labels.map b.nodes.itemsAt := by
  induction labels generalizing buckets with
  | nil =>
      have value : buckets = [] := by simpa using h.symm
      rw [value, List.map_nil, List.map_nil]
  | cons label rest ih =>
      simp only [List.mapM_cons, Option.bind_eq_bind, Option.bind_eq_some_iff, Option.pure_def,
        Option.some.injEq] at h
      obtain ⟨bucket, found, others, rest_eq, rfl⟩ := h
      have at_label : b.nodes.itemsAt label = bucket.toList := by
        rw [SetMap.itemsAt, show b.nodes[label]? = some bucket from found, listed_some]
      rw [List.map_cons, List.map_cons, ih rest_eq, at_label]

theorem mem_mapM_bucket {b : LabelBuckets} {labels : List Label} {buckets : List (InsertionSet NodeId)}
    (h : labels.mapM b.nodeBucket? = some buckets) (id : NodeId) :
    (∀ s ∈ buckets, id ∈ s.toList) ↔ ∀ label ∈ labels, id ∈ b.nodes.itemsAt label := by
  rw [← List.forall_mem_map (f := b.nodes.itemsAt) (P := fun items => id ∈ items),
    ← map_toList_of_mapM h, List.forall_mem_map]

theorem exists_empty_of_mapM_none {b : LabelBuckets} {labels : List Label}
    (h : labels.mapM b.nodeBucket? = none) : ∃ label ∈ labels, b.nodes.itemsAt label = [] := by
  induction labels with
  | nil => simp at h
  | cons label rest ih =>
      cases found : b.nodeBucket? label with
      | none =>
          refine ⟨label, List.mem_cons_self, ?_⟩
          rw [SetMap.itemsAt, show b.nodes[label]? = none from found, listed_none]
      | some bucket =>
          cases rest_eq : rest.mapM b.nodeBucket? with
          | none =>
              obtain ⟨other, mem, empty⟩ := ih rest_eq
              exact ⟨other, List.mem_cons_of_mem _ mem, empty⟩
          | some others => simp [List.mapM_cons, found, rest_eq] at h

theorem mem_nodesWithAll {b : LabelBuckets} {labels : List Label} (some_label : labels ≠ [])
    (id : NodeId) :
    id ∈ (b.nodesWithAll labels).items ↔ ∀ label ∈ labels, id ∈ b.nodes.itemsAt label := by
  unfold nodesWithAll
  split
  · rename_i missing
    obtain ⟨label, mem, empty⟩ := exists_empty_of_mapM_none missing
    refine iff_of_false List.not_mem_nil fun all => ?_
    simpa [empty] using all label mem
  · rename_i none_asked
    cases labels with
    | nil => exact absurd rfl some_label
    | cons label rest =>
        simp [List.mapM_cons, Option.bind_eq_some_iff] at none_asked
  · rename_i first rest found
    rw [← mem_mapM_bucket found id, List.mem_filter]
    simp only [List.all_eq_true, Bool.or_eq_true, beq_iff_eq, InsertionSet.contains_iff_mem]
    exact forall_mem_of_skipped (smallest_mem_zipIdx first rest)

theorem nodup_nodesWithAll (b : LabelBuckets) (labels : List Label) :
    (b.nodesWithAll labels).items.Nodup := by
  unfold nodesWithAll
  split
  · exact .nil
  · exact .nil
  · exact (InsertionSet.nodup_toList _).filter _

theorem flatMap_buckets {κ : Type} {cmp : κ → κ → Ordering} [Std.TransCmp cmp] (m : SetMap κ α cmp)
    (keys : List κ) :
    (keys.filterMap (m[·]?)).flatMap InsertionSet.toList = keys.flatMap m.itemsAt := by
  induction keys with
  | nil => rfl
  | cons key rest ih =>
      rw [List.flatMap_cons, SetMap.itemsAt, ← ih]
      cases found : m[key]? with
      | none =>
          rw [List.filterMap_cons_none found]
          rfl
      | some bucket =>
          rw [List.filterMap_cons_some found]
          rfl

theorem edgesWithAny_items (b : LabelBuckets) (types : List EdgeType) :
    (b.edgesWithAny types).items = types.eraseDups.flatMap b.edges.itemsAt :=
  flatMap_buckets b.edges types.eraseDups

theorem mem_edgesWithAny {b : LabelBuckets} {types : List EdgeType} (id : EdgeId) :
    id ∈ (b.edgesWithAny types).items ↔ ∃ type ∈ types, id ∈ b.edges.itemsAt type := by
  simp [edgesWithAny_items]

theorem nodup_edgesWithAny {b : LabelBuckets} (types : List EdgeType)
    (apart : ∀ {id s t}, id ∈ b.edges.itemsAt s → id ∈ b.edges.itemsAt t → s = t) :
    (b.edgesWithAny types).items.Nodup := by
  rw [edgesWithAny_items, List.nodup_flatMap]
  refine ⟨fun type _ => SetMap.nodup_itemsAt _ type,
    (nodup_eraseDups types).imp_of_mem fun {s t} _ _ ne => ?_⟩
  intro id hs ht
  exact ne (apart hs ht)

theorem mem_unionFrom {earlier sets : List (InsertionSet α)} {a : α} : a ∈ unionFrom earlier sets ↔
    (∃ s ∈ sets, a ∈ s.toList) ∧ ∀ s ∈ earlier, a ∉ s.toList := by
  induction sets generalizing earlier with
  | nil => simp [unionFrom]
  | cons s rest ih =>
      rw [unionFrom, List.mem_append, List.mem_filter, ih]
      simp only [Bool.not_eq_true', List.any_eq_false, InsertionSet.contains_iff_mem,
        List.exists_mem_cons_iff, List.forall_mem_append, List.forall_mem_singleton]
      by_cases first : a ∈ s.toList
      · simp [first]
      · simp [first]

theorem nodup_unionFrom (earlier sets : List (InsertionSet α)) :
    (unionFrom earlier sets).Nodup := by
  induction sets generalizing earlier with
  | nil => exact .nil
  | cons s rest ih =>
      refine List.nodup_append.mpr ⟨s.nodup_toList.filter _, ih _, ?_⟩
      rintro a mem _ later rfl
      exact (mem_unionFrom.mp later).2 s (by simp) (List.mem_filter.mp mem).1

section Sizes

variable [Std.LawfulEqOrd α]

theorem totalSize_eq_length (sets : List (InsertionSet α)) :
    totalSize sets = (sets.flatMap InsertionSet.toList).length := by
  induction sets with
  | nil => rfl
  | cons s rest ih =>
      rw [List.flatMap_cons, List.length_append, ← ih, ← InsertionSet.size_eq_length]
      rfl

theorem length_unionFrom_le (earlier sets : List (InsertionSet α)) :
    (unionFrom earlier sets).length ≤ totalSize sets := by
  induction sets generalizing earlier with
  | nil => exact Nat.le_refl 0
  | cons s rest ih =>
      rw [unionFrom, List.length_append]
      refine Nat.add_le_add ?_ (ih _)
      rw [InsertionSet.size_eq_length]
      exact List.length_filter_le _ _

end Sizes

theorem mem_nodesWithAny {b : LabelBuckets} {labels : List Label} (id : NodeId) :
    id ∈ (b.nodesWithAny labels).items ↔ ∃ label ∈ labels, id ∈ b.nodes.itemsAt label := by
  have buckets : id ∈ (b.nodesWithAny labels).items ↔
      id ∈ labels.eraseDups.flatMap b.nodes.itemsAt := by
    rw [← flatMap_buckets, List.mem_flatMap]
    exact mem_unionFrom.trans (and_iff_left (by simp))
  simp [buckets]

end Lookup

end LabelBuckets

end PropertyGraph
