import PropertyGraph.Container.SetMap
import PropertyGraph.Proofs.Container.InsertionMap
import PropertyGraph.Proofs.Container.InsertionSet
import Mathlib.Data.List.Sort

namespace PropertyGraph

variable {κ α : Type} [Ord α] [Std.TransOrd α]

def listed (found : Option (InsertionSet α)) : List α := (found.map InsertionSet.toList).getD []

@[simp] theorem listed_none : listed (none : Option (InsertionSet α)) = [] := rfl

@[simp] theorem listed_some (items : InsertionSet α) : listed (some items) = items.toList := rfl

theorem nodup_listed (found : Option (InsertionSet α)) : (listed found).Nodup := by
  cases found with
  | none => exact .nil
  | some items => exact items.nodup_toList

theorem eq_some_of_mem_listed {found : Option (InsertionSet α)} {a : α} (h : a ∈ listed found) :
    ∃ items, found = some items ∧ a ∈ items.toList := by
  cases found with
  | none => cases h
  | some items => exact ⟨items, rfl, h⟩

section Change

variable [Std.LawfulEqOrd α]

theorem mem_listed_insert {found : Option (InsertionSet α)} {a b : α} :
    b ∈ listed (some ((found.getD ∅).insert a)) ↔ b = a ∨ b ∈ listed found := by
  rw [listed_some, InsertionSet.mem_insert]
  cases found <;> simp

def shrunk (found : Option (InsertionSet α)) (a : α) : Option (InsertionSet α) :=
  match found with
  | none => none
  | some items => if (items.erase a).isEmpty then none else some (items.erase a)

theorem mem_listed_shrunk {found : Option (InsertionSet α)} {a b : α} :
    b ∈ listed (shrunk found a) ↔ b ∈ listed found ∧ b ≠ a := by
  cases found with
  | none => simp [shrunk]
  | some items =>
      rw [listed_some, ← InsertionSet.mem_erase, shrunk]
      split
      · rename_i empty
        simp [InsertionSet.isEmpty_iff.mp empty]
      · rfl

theorem listed_insert [DecidableEq α] (found : Option (InsertionSet α)) (a : α) :
    listed (some ((found.getD ∅).insert a)) =
      if a ∈ listed found then listed found else listed found ++ [a] := by
  have same : (found.getD ∅).toList = listed found := by cases found <;> rfl
  rw [listed_some, ← same]
  split
  · rename_i there
    rw [InsertionSet.toList_insert_of_mem there]
  · rename_i absent
    exact InsertionSet.toList_insert_of_not_mem absent

theorem listed_shrunk [DecidableEq α] (found : Option (InsertionSet α)) (a : α) :
    listed (shrunk found a) = (listed found).filter (· ≠ a) := by
  cases found with
  | none => rfl
  | some items =>
      rw [listed_some, ← InsertionSet.toList_erase, shrunk]
      split
      · rename_i empty
        exact (InsertionSet.isEmpty_iff.mp empty).symm
      · rfl

theorem shrunk_ne_nil {found : Option (InsertionSet α)} {a : α} {items : InsertionSet α}
    (h : shrunk found a = some items) : items.toList ≠ [] := by
  intro empty
  unfold shrunk at h
  split at h
  · cases h
  · split at h
    · cases h
    · rename_i left
      cases h
      exact left (InsertionSet.isEmpty_iff.mpr empty)

end Change

namespace SetMap

variable {cmp : κ → κ → Ordering} [Std.TransCmp cmp]

def itemsAt (m : SetMap κ α cmp) (k : κ) : List α := listed m[k]?

def Filled (m : SetMap κ α cmp) : Prop :=
  ∀ (k : κ) (items : InsertionSet α), m[k]? = some items → items.toList ≠ []

theorem nodup_itemsAt (m : SetMap κ α cmp) (k : κ) : (m.itemsAt k).Nodup := nodup_listed _

@[simp] theorem itemsAt_empty (k : κ) : (∅ : SetMap κ α cmp).itemsAt k = [] := by
  simp [itemsAt]

theorem filled_empty : (∅ : SetMap κ α cmp).Filled := by
  intro k items h
  simp at h

variable [Std.LawfulEqCmp cmp]

theorem isEmpty_iff_itemsAt {m : SetMap κ α cmp} (filled : m.Filled) :
    m.isEmpty = true ↔ ∀ k, m.itemsAt k = [] := by
  constructor
  · intro empty k
    rw [Std.ExtTreeMap.isEmpty_iff.mp empty, itemsAt_empty]
  · intro none_listed
    refine Std.ExtTreeMap.isEmpty_iff.mpr (Std.ExtTreeMap.ext_getElem? fun k => ?_)
    rw [Std.ExtTreeMap.getElem?_empty]
    cases found : m[k]? with
    | none => rfl
    | some items =>
        have listed := none_listed k
        rw [itemsAt, found, listed_some] at listed
        exact absurd listed (filled k items found)

omit [Std.TransCmp cmp] in
theorem ne_of_lt {k l : κ} (less : cmp k l = .lt) : k ≠ l := by
  rintro rfl
  simp [Std.ReflCmp.compare_self] at less

theorem eq_of_ascending {β : Type} {key : β → κ} {as bs : List β}
    (left : as.Pairwise fun a b => cmp (key a) (key b) = .lt)
    (right : bs.Pairwise fun a b => cmp (key a) (key b) = .lt) (same : ∀ b, b ∈ as ↔ b ∈ bs) :
    as = bs := by
  have irrefl : Std.Irrefl fun a b : β => cmp (key a) (key b) = .lt :=
    ⟨fun _ less => ne_of_lt less rfl⟩
  have antisymm : Std.Antisymm fun a b : β => cmp (key a) (key b) = .lt :=
    ⟨fun _ _ less more => absurd rfl (ne_of_lt (Std.TransCmp.lt_trans less more))⟩
  exact left.eq_of_mem_iff right same

theorem keys_eq_toList {m : SetMap κ α cmp} {keys : Std.ExtTreeSet κ cmp}
    (same : ∀ k, k ∈ m ↔ k ∈ keys) : m.keys = keys.toList := by
  refine eq_of_ascending Std.ExtTreeMap.ordered_keys Std.ExtTreeSet.ordered_toList fun k => ?_
  rw [Std.ExtTreeMap.mem_keys, Std.ExtTreeSet.mem_toList, same]

variable [Std.LawfulEqOrd α]

theorem map_size {m : SetMap κ α cmp} (filled : m.Filled) {keys : Std.ExtTreeSet κ cmp}
    {count : κ → Nat} (counted : ∀ k, (m.itemsAt k).length = count k)
    (present : ∀ k, k ∈ keys ↔ count k ≠ 0) :
    (m.toList.map fun (k, items) => (k, items.size)) = keys.toList.map fun k => (k, count k) := by
  have same (k : κ) : k ∈ m ↔ k ∈ keys := by
    rw [present, ← counted, itemsAt, ← Std.ExtTreeMap.isSome_getElem?_iff_mem]
    cases found : m[k]? with
    | none => simp
    | some items => simp [filled k items found]
  rw [← keys_eq_toList same, ← Std.ExtTreeMap.map_fst_toList_eq_keys, List.map_map]
  refine List.map_congr_left fun pair mem => ?_
  have found := Std.ExtTreeMap.mem_toList_iff_getElem?_eq_some.mp mem
  simp [← counted, itemsAt, found, InsertionSet.size_eq_length]

variable [DecidableEq κ]

theorem getElem?_insertAt (m : SetMap κ α cmp) (k : κ) (a : α) (l : κ) :
    (insertAt m k a)[l]? = if l = k then some ((m[k]?.getD ∅).insert a) else m[l]? := by
  rw [insertAt, Std.ExtTreeMap.getElem?_insert]
  simp only [Std.LawfulEqCmp.compare_eq_iff_eq, eq_comm (a := k)]

theorem mem_itemsAt_insertAt {m : SetMap κ α cmp} {k l : κ} {a b : α} :
    b ∈ (insertAt m k a).itemsAt l ↔ (l = k ∧ b = a) ∨ b ∈ m.itemsAt l := by
  rw [itemsAt, getElem?_insertAt]
  by_cases h : l = k
  · rw [if_pos h, h, mem_listed_insert]
    simp [itemsAt]
  · rw [if_neg h]
    simp [h, itemsAt]

theorem itemsAt_insertAt [DecidableEq α] (m : SetMap κ α cmp) (k l : κ) (a : α) :
    (insertAt m k a).itemsAt l =
      if l = k ∧ a ∉ m.itemsAt k then m.itemsAt l ++ [a] else m.itemsAt l := by
  rw [itemsAt, getElem?_insertAt]
  by_cases same : l = k
  · rw [if_pos same, listed_insert, same]
    simp [itemsAt, ite_not]
  · rw [if_neg same, if_neg (fun both => same both.1)]
    rfl

theorem filled_insertAt {m : SetMap κ α cmp} (h : m.Filled) (k : κ) (a : α) :
    (insertAt m k a).Filled := by
  intro l items hl
  rw [getElem?_insertAt] at hl
  split at hl
  · cases hl
    exact List.ne_nil_of_mem (InsertionSet.mem_insert.mpr (.inl rfl))
  · exact h l items hl

theorem getElem?_eraseAt (m : SetMap κ α cmp) (k : κ) (a : α) (l : κ) :
    (eraseAt m k a)[l]? = if l = k then shrunk m[k]? a else m[l]? := by
  unfold eraseAt shrunk
  cases hk : m[k]? with
  | none =>
      by_cases h : l = k
      · simp [h, hk]
      · simp [h]
  | some items =>
      by_cases he : (items.erase a).isEmpty
      · simp only [he, if_true, Std.ExtTreeMap.getElem?_erase,
          Std.LawfulEqCmp.compare_eq_iff_eq, eq_comm (a := k)]
      · simp only [he, Bool.false_eq_true, if_false, Std.ExtTreeMap.getElem?_insert,
          Std.LawfulEqCmp.compare_eq_iff_eq, eq_comm (a := k)]

theorem mem_itemsAt_eraseAt {m : SetMap κ α cmp} {k l : κ} {a b : α} :
    b ∈ (eraseAt m k a).itemsAt l ↔ b ∈ m.itemsAt l ∧ ¬(l = k ∧ b = a) := by
  rw [itemsAt, getElem?_eraseAt]
  by_cases h : l = k
  · rw [if_pos h, h, mem_listed_shrunk]
    simp [itemsAt]
  · rw [if_neg h]
    simp [h, itemsAt]

theorem itemsAt_eraseAt [DecidableEq α] (m : SetMap κ α cmp) (k l : κ) (a : α) :
    (eraseAt m k a).itemsAt l = if l = k then (m.itemsAt l).filter (· ≠ a) else m.itemsAt l := by
  rw [itemsAt, getElem?_eraseAt]
  by_cases same : l = k
  · rw [if_pos same, if_pos same, listed_shrunk, same]
    rfl
  · rw [if_neg same, if_neg same]
    rfl

theorem filled_eraseAt {m : SetMap κ α cmp} (h : m.Filled) (k : κ) (a : α) :
    (eraseAt m k a).Filled := by
  intro l items hl
  rw [getElem?_eraseAt] at hl
  split at hl
  · exact shrunk_ne_nil hl
  · exact h l items hl

end SetMap

namespace GroupMap

variable [DecidableEq κ]

def Filled (m : GroupMap κ α) : Prop :=
  ∀ (k : κ) (items : InsertionSet α), m.get? k = some items → items.toList ≠ []

theorem itemsAt_eq_listed (m : GroupMap κ α) (k : κ) : m.itemsAt k = listed (m.get? k) := rfl

theorem nodup_itemsAt (m : GroupMap κ α) (k : κ) : (m.itemsAt k).Nodup := nodup_listed (m.get? k)

@[simp] theorem itemsAt_empty (k : κ) : (∅ : GroupMap κ α).itemsAt k = [] := rfl

theorem filled_empty : (∅ : GroupMap κ α).Filled := by
  intro k items h
  cases h

theorem items_eq_flatMap (m : GroupMap κ α) : m.items = m.keys.flatMap m.itemsAt := by
  rw [items, InsertionMap.values, InsertionMap.keys, List.flatMap_map, List.flatMap_map]
  refine List.flatMap_congr fun entry mem => ?_
  rw [itemsAt_eq_listed, InsertionMap.mem_entries.mp mem, listed_some]

theorem mem_items {m : GroupMap κ α} {a : α} : a ∈ m.items ↔ ∃ k, a ∈ m.itemsAt k := by
  rw [items_eq_flatMap, List.mem_flatMap]
  constructor
  · rintro ⟨k, -, h⟩
    exact ⟨k, h⟩
  · rintro ⟨k, h⟩
    obtain ⟨items, found, -⟩ := eq_some_of_mem_listed h
    exact ⟨k, InsertionMap.mem_keys.mpr ⟨items, found⟩, h⟩

omit [Ord α] [Std.TransOrd α] in
theorem flatMap_single {keys : List κ} (distinct : keys.Nodup) (k : κ) (items : List α) :
    (keys.flatMap fun l => if l = k then items else []) = if k ∈ keys then items else [] := by
  induction keys with
  | nil => rfl
  | cons l rest ih =>
      obtain ⟨absent, distinct⟩ := List.nodup_cons.mp distinct
      rw [List.flatMap_cons, ih distinct]
      by_cases same : l = k
      · rw [same] at absent
        simp [same, absent]
      · simp [same, Ne.symm same]

omit [Ord α] [Std.TransOrd α] [DecidableEq κ] in
theorem flatMap_filter_of_nil {p : κ → Bool} {f : κ → List α}
    (gone : ∀ k, p k = false → f k = []) (keys : List κ) :
    (keys.filter p).flatMap f = keys.flatMap f := by
  induction keys with
  | nil => rfl
  | cons k rest ih =>
      cases kept : p k with
      | true => rw [List.filter_cons_of_pos kept, List.flatMap_cons, List.flatMap_cons, ih]
      | false =>
          rw [List.filter_cons_of_neg (by simp [kept]), List.flatMap_cons, gone k kept, ih,
            List.nil_append]

theorem filter_items {m : GroupMap κ α} {k : κ} {p : α → Bool}
    (tells : ∀ l, ∀ a ∈ m.itemsAt l, p a = decide (l = k)) : m.items.filter p = m.itemsAt k := by
  have each (l : κ) : (m.itemsAt l).filter p = if l = k then m.itemsAt k else [] := by
    split
    · rename_i same
      rw [← same]
      exact List.filter_eq_self.mpr fun a mem => by simp [tells l a mem, same]
    · rename_i other
      exact List.filter_eq_nil_iff.mpr fun a mem => by simp [tells l a mem, other]
  have distinct : m.keys.Nodup := m.distinct
  rw [items_eq_flatMap, List.filter_flatMap]
  simp only [each]
  rw [flatMap_single distinct]
  split
  · rfl
  · rename_i absent
    rw [itemsAt_eq_listed, InsertionMap.get?_eq_none.mpr absent, listed_none]

theorem eq_empty_of_itemsAt {m : GroupMap κ α} (filled : m.Filled)
    (none_listed : ∀ k, m.itemsAt k = []) : m = ∅ := by
  have absent (k : κ) : m.get? k = none := by
    cases found : m.get? k with
    | none => rfl
    | some items =>
        have listed := none_listed k
        rw [itemsAt_eq_listed, found, listed_some] at listed
        exact absurd listed (filled k items found)
  refine InsertionMap.ext_of_keys ?_ absent
  refine List.eq_nil_iff_forall_not_mem.mpr fun k => ?_
  exact InsertionMap.get?_eq_none.mp (absent k)

variable [Std.LawfulEqOrd α]

theorem get?_insertAt (m : GroupMap κ α) (k : κ) (a : α) (l : κ) :
    (insertAt m k a).get? l = if l = k then some (((m.get? k).getD ∅).insert a) else m.get? l :=
  InsertionMap.get?_insert m k _ l

theorem mem_itemsAt_insertAt {m : GroupMap κ α} {k l : κ} {a b : α} :
    b ∈ (insertAt m k a).itemsAt l ↔ (l = k ∧ b = a) ∨ b ∈ m.itemsAt l := by
  rw [itemsAt_eq_listed, get?_insertAt]
  by_cases h : l = k
  · rw [if_pos h, h, mem_listed_insert]
    simp [itemsAt_eq_listed]
  · rw [if_neg h]
    simp [h, itemsAt_eq_listed]

theorem filled_insertAt {m : GroupMap κ α} (h : m.Filled) (k : κ) (a : α) :
    (insertAt m k a).Filled := by
  intro l items hl
  rw [get?_insertAt] at hl
  split at hl
  · cases hl
    exact List.ne_nil_of_mem (InsertionSet.mem_insert.mpr (.inl rfl))
  · exact h l items hl

theorem get?_eraseAt (m : GroupMap κ α) (k : κ) (a : α) (l : κ) :
    (eraseAt m k a).get? l = if l = k then shrunk (m.get? k) a else m.get? l := by
  unfold eraseAt shrunk
  cases hk : m.get? k with
  | none =>
      by_cases h : l = k
      · simp [h, hk]
      · simp [h]
  | some items =>
      by_cases he : (items.erase a).isEmpty
      · simp [he, InsertionMap.get?_erase]
      · simp [he, InsertionMap.get?_insert]

theorem mem_itemsAt_eraseAt {m : GroupMap κ α} {k l : κ} {a b : α} :
    b ∈ (eraseAt m k a).itemsAt l ↔ b ∈ m.itemsAt l ∧ ¬(l = k ∧ b = a) := by
  rw [itemsAt_eq_listed, get?_eraseAt]
  by_cases h : l = k
  · rw [if_pos h, h, mem_listed_shrunk]
    simp [itemsAt_eq_listed]
  · rw [if_neg h]
    simp [h, itemsAt_eq_listed]

theorem itemsAt_eraseAt [DecidableEq α] (m : GroupMap κ α) (k l : κ) (a : α) :
    (eraseAt m k a).itemsAt l = if l = k then (m.itemsAt l).filter (· ≠ a) else m.itemsAt l := by
  rw [itemsAt_eq_listed, get?_eraseAt]
  by_cases same : l = k
  · rw [if_pos same, if_pos same, listed_shrunk, same]
    rfl
  · rw [if_neg same, if_neg same]
    rfl

theorem keys_eraseAt (m : GroupMap κ α) (k : κ) (a : α) :
    (eraseAt m k a).keys = m.keys.filter fun l => ((eraseAt m k a).get? l).isSome := by
  have present {l : κ} (mem : l ∈ m.keys) : (m.get? l).isSome := by
    rw [Option.isSome_iff_exists]
    exact InsertionMap.mem_keys.mp mem
  unfold eraseAt
  cases found : m.get? k with
  | none => exact (List.filter_eq_self.mpr fun l mem => present mem).symm
  | some items =>
      by_cases empty : (items.erase a).isEmpty
      · simp only [empty, if_true]
        rw [InsertionMap.keys_erase]
        refine List.filter_congr fun l mem => ?_
        by_cases same : l = k
        · simp [same, InsertionMap.get?_erase]
        · simp [same, InsertionMap.get?_erase, present mem]
      · simp only [empty, Bool.false_eq_true, if_false]
        rw [InsertionMap.keys_insert, if_pos (InsertionMap.mem_keys.mpr ⟨items, found⟩)]
        refine (List.filter_eq_self.mpr fun l mem => ?_).symm
        rw [InsertionMap.get?_insert]
        split
        · rfl
        · exact present mem

theorem items_eraseAt [DecidableEq α] {m : GroupMap κ α} {k : κ} {a : α}
    (only : ∀ l, a ∈ m.itemsAt l → l = k) :
    (eraseAt m k a).items = m.items.filter (· ≠ a) := by
  have each (l : κ) : (eraseAt m k a).itemsAt l = (m.itemsAt l).filter (· ≠ a) := by
    rw [itemsAt_eraseAt]
    split
    · rfl
    · rename_i other
      refine (List.filter_eq_self.mpr fun b mem => ?_).symm
      exact decide_eq_true fun eq => other (only l (eq ▸ mem))
  have gone (l : κ) (absent : ((eraseAt m k a).get? l).isSome = false) :
      (eraseAt m k a).itemsAt l = [] := by
    rw [itemsAt_eq_listed, Option.isNone_iff_eq_none.mp
      (Option.isSome_eq_false_iff.mp absent), listed_none]
  calc (eraseAt m k a).items
      = (m.keys.filter fun l => ((eraseAt m k a).get? l).isSome).flatMap
          (eraseAt m k a).itemsAt := by rw [items_eq_flatMap, keys_eraseAt]
    _ = m.keys.flatMap (eraseAt m k a).itemsAt := flatMap_filter_of_nil gone m.keys
    _ = m.items.filter (· ≠ a) := by
        rw [items_eq_flatMap, List.filter_flatMap]
        exact List.flatMap_congr fun l _ => each l

theorem filled_eraseAt {m : GroupMap κ α} (h : m.Filled) (k : κ) (a : α) :
    (eraseAt m k a).Filled := by
  intro l items hl
  rw [get?_eraseAt] at hl
  split at hl
  · exact shrunk_ne_nil hl
  · exact h l items hl

end GroupMap

end PropertyGraph
