import PropertyGraph.Container.InsertionSet
import Mathlib.Data.List.Nodup

namespace PropertyGraph

namespace InsertionSet

variable {α : Type} [Ord α] [Std.TransOrd α]

theorem mem_toList {s : InsertionSet α} {a : α} :
    a ∈ s.toList ↔ ∃ i, s.positions[a]? = some i := by
  simp only [toList, List.mem_filterMap, id_eq, s.sound]
  constructor
  · rintro ⟨slot, mem, rfl⟩
    obtain ⟨i, hi⟩ := List.mem_iff_getElem?.mp mem
    exact ⟨i, by simpa using hi⟩
  · rintro ⟨i, hi⟩
    exact ⟨some a, List.mem_iff_getElem?.mpr ⟨i, by simpa using hi⟩, rfl⟩

theorem contains_iff_mem {s : InsertionSet α} {a : α} : s.contains a = true ↔ a ∈ s.toList := by
  rw [mem_toList, contains, Std.ExtTreeMap.contains_eq_isSome_getElem?, Option.isSome_iff_exists]

theorem positions_eq_none {s : InsertionSet α} {a : α} :
    s.positions[a]? = none ↔ a ∉ s.toList := by
  rw [mem_toList, ← Option.isSome_iff_exists, Option.not_isSome_iff_eq_none]

theorem nodup_toList (s : InsertionSet α) : s.toList.Nodup := by
  rw [toList, List.Nodup, List.pairwise_filterMap, List.pairwise_iff_getElem]
  intro i j hi hj hij a ha b hb hab
  have at_i : s.positions[a]? = some i := (s.sound a i).mpr (by
    rw [Array.getElem?_eq_getElem (by simpa using hi)]
    simpa using ha)
  have at_j : s.positions[a]? = some j := (s.sound a j).mpr (by
    rw [Array.getElem?_eq_getElem (by simpa using hj), hab]
    simpa using hb)
  rw [at_i] at at_j
  simp only [Option.some.injEq] at at_j
  omega

theorem isEmpty_iff {s : InsertionSet α} : s.isEmpty = true ↔ s.toList = [] := by
  rw [isEmpty, Std.ExtTreeMap.isEmpty_iff, Std.ExtTreeMap.eq_empty_iff_forall_contains,
    List.eq_nil_iff_forall_not_mem]
  refine forall_congr' fun a => ?_
  rw [← contains_iff_mem, contains, Bool.not_eq_true]

@[simp] theorem toList_empty : (∅ : InsertionSet α).toList = [] := rfl

variable [Std.LawfulEqOrd α]

theorem size_eq_length (s : InsertionSet α) : s.size = s.toList.length := by
  rw [size, ← Std.ExtTreeMap.length_keys]
  refine List.Perm.length_eq ?_
  refine (List.perm_ext_iff_of_nodup Std.ExtTreeMap.nodup_keys s.nodup_toList).mpr fun a => ?_
  rw [Std.ExtTreeMap.mem_keys, ← contains_iff_mem]
  rfl

theorem toList_insert_of_mem {s : InsertionSet α} {a : α} (h : a ∈ s.toList) :
    s.insert a = s := by
  obtain ⟨i, hi⟩ := mem_toList.mp h
  unfold insert
  split
  · rfl
  · rename_i absent
    simp [hi] at absent

theorem slots_insert_of_not_mem {s : InsertionSet α} {a : α} (h : a ∉ s.toList) :
    (s.insert a).slots = s.slots.push (some a) := by
  have absent := positions_eq_none.mpr h
  unfold insert
  split
  · rename_i there
    simp [absent] at there
  · rfl

theorem toList_insert_of_not_mem {s : InsertionSet α} {a : α} (h : a ∉ s.toList) :
    (s.insert a).toList = s.toList ++ [a] := by
  rw [toList, slots_insert_of_not_mem h]
  simp [toList]

theorem mem_insert {s : InsertionSet α} {a b : α} :
    b ∈ (s.insert a).toList ↔ b = a ∨ b ∈ s.toList := by
  by_cases h : a ∈ s.toList
  · rw [toList_insert_of_mem h]
    exact ⟨Or.inr, fun hb => hb.elim (fun eq => eq ▸ h) id⟩
  · rw [toList_insert_of_not_mem h, List.mem_append, List.mem_singleton, or_comm]

theorem slots_foldl_insert (items : List α) (s : InsertionSet α) (h : (s.toList ++ items).Nodup) :
    (items.foldl insert s).slots.toList = s.slots.toList ++ items.map some := by
  induction items generalizing s with
  | nil => simp
  | cons a rest ih =>
      have absent : a ∉ s.toList := fun mem =>
        (List.nodup_append.mp h).2.2 a mem a List.mem_cons_self rfl
      rw [List.foldl_cons, ih _ (by simpa [toList_insert_of_not_mem absent] using h),
        slots_insert_of_not_mem absent]
      simp

theorem slots_ofList {items : List α} (h : items.Nodup) :
    (ofList items).slots.toList = items.map some :=
  slots_foldl_insert items ∅ (by simpa using h)

theorem toList_ofList {items : List α} (h : items.Nodup) : (ofList items).toList = items := by
  rw [toList, slots_ofList h, List.filterMap_map]
  exact List.filterMap_some

theorem toList_clear [DecidableEq α] (s : InsertionSet α) (a : α) :
    (s.clear a).toList = s.toList.filter (· ≠ a) := by
  unfold clear
  split
  · rename_i absent
    refine (List.filter_eq_self.mpr fun b mem => ?_).symm
    have other : b ≠ a := fun eq => positions_eq_none.mp absent (eq ▸ mem)
    simpa using other
  · rename_i i there
    have at_i : s.slots.toList[i]? = some (some a) := by simpa using (s.sound a i).mp there
    obtain ⟨bound, value⟩ := List.getElem?_eq_some_iff.mp at_i
    have parts : s.slots.toList = s.slots.toList.take i ++ some a :: s.slots.toList.drop (i + 1) := by
      rw [← value, List.getElem_cons_drop, List.take_append_drop]
    have nodup := s.nodup_toList
    have list_eq : s.toList = (s.slots.toList.take i).filterMap id ++
        a :: (s.slots.toList.drop (i + 1)).filterMap id := by
      conv_lhs => rw [toList, parts, List.filterMap_append, List.filterMap_cons]
      rfl
    rw [list_eq] at nodup
    obtain ⟨-, tail, apart⟩ := List.nodup_append.mp nodup
    have cleared : (s.slots.setIfInBounds i none).toList =
        s.slots.toList.take i ++ none :: s.slots.toList.drop (i + 1) := by
      rw [Array.toList_setIfInBounds, List.set_eq_take_append_cons_drop, if_pos bound]
    have before : ∀ b ∈ (s.slots.toList.take i).filterMap id, b ≠ a := fun b mem =>
      apart b mem a List.mem_cons_self
    have behind : ∀ b ∈ (s.slots.toList.drop (i + 1)).filterMap id, b ≠ a := fun b mem eq =>
      (List.nodup_cons.mp tail).1 (eq ▸ mem)
    rw [list_eq, List.filter_append, List.filter_cons_of_neg (by simp),
      List.filter_eq_self.mpr (by simpa using before),
      List.filter_eq_self.mpr (by simpa using behind), toList, cleared, List.filterMap_append,
      List.filterMap_cons]
    simp

theorem toList_sweep (s : InsertionSet α) : s.sweep.toList = s.toList := by
  unfold sweep
  split
  · exact toList_ofList s.nodup_toList
  · rfl

theorem toList_erase [DecidableEq α] (s : InsertionSet α) (a : α) :
    (s.erase a).toList = s.toList.filter (· ≠ a) := by
  unfold erase
  split
  · rw [toList_sweep, toList_clear]
  · rename_i absent
    refine (List.filter_eq_self.mpr fun b mem => ?_).symm
    have other : b ≠ a := fun eq => absent (contains_iff_mem.mpr (eq ▸ mem))
    simpa using other

theorem mem_erase {s : InsertionSet α} {a b : α} :
    b ∈ (s.erase a).toList ↔ b ∈ s.toList ∧ b ≠ a := by
  classical
  rw [toList_erase, List.mem_filter, decide_eq_true_eq]

end InsertionSet

end PropertyGraph
