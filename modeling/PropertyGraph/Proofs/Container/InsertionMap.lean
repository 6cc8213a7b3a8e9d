import PropertyGraph.Container.InsertionMap
import Mathlib.Data.List.Induction
import Mathlib.Data.List.Nodup
import Mathlib.Data.Nat.Init

namespace PropertyGraph

theorem nodup_eraseDups {α : Type} [DecidableEq α] (l : List α) : l.eraseDups.Nodup := by
  induction hn : l.length using Nat.strongRecOn generalizing l with
  | ind n ih =>
      cases l with
      | nil => simp
      | cons a rest =>
          rw [List.eraseDups_cons, List.nodup_cons]
          constructor
          · simp
          · refine ih _ ?_ _ rfl
            rw [← hn, List.length_cons]
            exact Nat.lt_succ_of_le (List.length_filter_le _ _)

theorem eraseDups_filter {α : Type} [DecidableEq α] (p : α → Bool) (l : List α) :
    (l.filter p).eraseDups = l.eraseDups.filter p := by
  induction hn : l.length using Nat.strongRecOn generalizing l with
  | ind n ih =>
      cases l with
      | nil => simp
      | cons a rest =>
          have shorter : (rest.filter fun b => !b == a).length < n := by
            rw [← hn, List.length_cons]
            exact Nat.lt_succ_of_le (List.length_filter_le _ _)
          have tail := ih _ shorter _ rfl
          rw [List.eraseDups_cons]
          cases hp : p a with
          | true =>
              rw [List.filter_cons_of_pos hp, List.eraseDups_cons, List.filter_cons_of_pos hp,
                ← tail, List.filter_filter, List.filter_filter]
              simp only [Bool.and_comm]
          | false =>
              rw [List.filter_cons_of_neg (by simp [hp]), List.filter_cons_of_neg (by simp [hp]),
                ← tail, List.filter_filter]
              congr 1
              refine List.filter_congr fun b _ => ?_
              by_cases hb : b = a
              · simp [hb, hp]
              · simp [hb]

theorem eraseDups_of_nodup {α : Type} [DecidableEq α] {l : List α} (h : l.Nodup) :
    l.eraseDups = l := by
  induction l with
  | nil => simp
  | cons a rest ih =>
      obtain ⟨absent, nodup⟩ := List.nodup_cons.mp h
      have kept : rest.filter (fun b => !b == a) = rest := List.filter_eq_self.mpr fun b mem => by
        have other : b ≠ a := fun eq => absent (eq ▸ mem)
        simpa using other
      rw [List.eraseDups_cons, kept, ih nodup]

namespace InsertionMap

variable {κ β : Type} [DecidableEq κ]

@[simp] theorem get?_empty (k : κ) : (∅ : InsertionMap κ β).get? k = none := rfl

omit [DecidableEq κ] in
@[simp] theorem keys_empty : (∅ : InsertionMap κ β).keys = [] := rfl

theorem lookup_cons_of_ne {k l : κ} (h : k ≠ l) (v : β) (entries : List (κ × β)) :
    ((l, v) :: entries).lookup k = entries.lookup k := by
  rw [List.lookup_cons, beq_eq_false_iff_ne.mpr h]

theorem mem_entries {m : InsertionMap κ β} {k : κ} {v : β} :
    (k, v) ∈ m.entries ↔ m.get? k = some v := by
  obtain ⟨entries, distinct⟩ := m
  simp only [get?]
  induction entries with
  | nil => simp
  | cons entry rest ih =>
      obtain ⟨l, w⟩ := entry
      obtain ⟨absent, nodup⟩ := List.nodup_cons.mp distinct
      rw [List.mem_cons]
      by_cases h : k = l
      · have other : (k, v) ∉ rest := fun mem =>
          absent (List.mem_map.mpr ⟨(k, v), mem, h⟩)
        simp [h ▸ other, h, eq_comm]
      · rw [lookup_cons_of_ne h, ih nodup]
        simp [h]

theorem mem_keys {m : InsertionMap κ β} {k : κ} : k ∈ m.keys ↔ ∃ v, m.get? k = some v := by
  simp only [keys, List.mem_map, ← mem_entries]
  constructor
  · rintro ⟨⟨l, v⟩, mem, rfl⟩
    exact ⟨v, mem⟩
  · rintro ⟨v, mem⟩
    exact ⟨(k, v), mem, rfl⟩

theorem get?_eq_none {m : InsertionMap κ β} {k : κ} : m.get? k = none ↔ k ∉ m.keys := by
  rw [mem_keys, ← Option.isSome_iff_exists, Option.not_isSome_iff_eq_none]

theorem contains_iff {m : InsertionMap κ β} {k : κ} : m.contains k = true ↔ k ∈ m.keys := by
  rw [contains, Option.isSome_iff_exists, mem_keys]

theorem lookup_place (k : κ) (v : β) (entries : List (κ × β)) (l : κ) :
    (place k v entries).lookup l = if l = k then some v else entries.lookup l := by
  induction entries with
  | nil =>
      by_cases h : l = k
      · simp [place, h]
      · simp [place, h, lookup_cons_of_ne h]
  | cons entry rest ih =>
      obtain ⟨m, w⟩ := entry
      by_cases hm : m = k
      · by_cases h : l = k
        · simp [place, hm, h]
        · rw [if_neg h, hm, lookup_cons_of_ne h, place, if_pos rfl, lookup_cons_of_ne h]
      · rw [place, if_neg hm]
        by_cases hl : l = m
        · simp [hl, hm]
        · rw [lookup_cons_of_ne hl, lookup_cons_of_ne hl, ih]

theorem get?_insert (m : InsertionMap κ β) (k : κ) (v : β) (l : κ) :
    (m.insert k v).get? l = if l = k then some v else m.get? l :=
  lookup_place k v m.entries l

theorem place_of_absent {k : κ} (v : β) {entries : List (κ × β)}
    (h : k ∉ entries.map Prod.fst) : place k v entries = entries ++ [(k, v)] := by
  induction entries with
  | nil => rfl
  | cons entry rest ih =>
      rw [List.map_cons, List.mem_cons, not_or] at h
      rw [place, if_neg (fun eq => h.1 eq.symm), ih h.2]
      rfl

theorem map_fst_place_of_mem {k : κ} (v : β) {entries : List (κ × β)}
    (h : k ∈ entries.map Prod.fst) :
    (place k v entries).map Prod.fst = entries.map Prod.fst := by
  induction entries with
  | nil => simp at h
  | cons entry rest ih =>
      by_cases hk : entry.1 = k
      · simp [place, hk]
      · have tail : k ∈ rest.map Prod.fst := by
          rw [List.map_cons, List.mem_cons] at h
          exact h.resolve_left fun eq => hk eq.symm
        rw [place, if_neg hk, List.map_cons, List.map_cons, ih tail]

theorem keys_insert (m : InsertionMap κ β) (k : κ) (v : β) :
    (m.insert k v).keys = if k ∈ m.keys then m.keys else m.keys ++ [k] := by
  split
  · rename_i h
    exact map_fst_place_of_mem v h
  · rename_i h
    simp only [keys, insert, place_of_absent v h, List.map_append, List.map_cons, List.map_nil]

theorem dropLast_insert {m : InsertionMap κ β} {k : κ} (h : m.get? k = none) (v : β) :
    (m.insert k v).dropLast = m := by
  obtain ⟨entries, distinct⟩ := m
  have absent : k ∉ entries.map Prod.fst := get?_eq_none.mp h
  simp [insert, dropLast, place_of_absent v absent]

theorem get?_erase (m : InsertionMap κ β) (k l : κ) :
    (m.erase k).get? l = if l = k then none else m.get? l := by
  obtain ⟨entries, distinct⟩ := m
  simp only [get?, erase]
  clear distinct
  induction entries with
  | nil => simp
  | cons entry rest ih =>
      obtain ⟨i, w⟩ := entry
      by_cases hi : i = k
      · rw [List.filter_cons_of_neg (by simp [hi]), ih]
        by_cases hl : l = k
        · simp [hl]
        · rw [lookup_cons_of_ne (hi ▸ hl)]
      · rw [List.filter_cons_of_pos (by simp [hi])]
        by_cases hl : l = i
        · simp [hl, hi]
        · rw [lookup_cons_of_ne hl, lookup_cons_of_ne hl, ih]

theorem keys_erase (m : InsertionMap κ β) (k : κ) : (m.erase k).keys = m.keys.filter (· ≠ k) := by
  rw [keys, erase, keys, List.filter_map]
  rfl

theorem ext_of_keys {m n : InsertionMap κ β} (hk : m.keys = n.keys)
    (hg : ∀ k, m.get? k = n.get? k) : m = n := by
  obtain ⟨entries, distinct⟩ := m
  obtain ⟨others, distinct'⟩ := n
  have same : entries = others := by
    simp only [keys] at hk
    simp only [get?] at hg
    induction entries generalizing others with
    | nil => exact (List.map_eq_nil_iff.mp hk.symm).symm
    | cons entry rest ih =>
        cases others with
        | nil => simp at hk
        | cons other rest' =>
            obtain ⟨k, v⟩ := entry
            obtain ⟨k', v'⟩ := other
            simp only [List.map_cons, List.cons.injEq] at hk
            obtain ⟨rfl, tail⟩ := hk
            obtain ⟨absent, nodup⟩ := List.nodup_cons.mp distinct
            obtain ⟨absent', nodup'⟩ := List.nodup_cons.mp distinct'
            have value : v = v' := by simpa using hg k
            have rest_eq := ih nodup rest' nodup' tail fun l => by
              by_cases hl : l = k
              · rw [hl, List.lookup_eq_none_iff.mpr, List.lookup_eq_none_iff.mpr]
                · intro p mem
                  simpa using fun eq => absent' (List.mem_map.mpr ⟨p, mem, eq.symm⟩)
                · intro p mem
                  simpa using fun eq => absent (List.mem_map.mpr ⟨p, mem, eq.symm⟩)
              · simpa only [lookup_cons_of_ne hl] using hg l
            rw [value, rest_eq]
  subst same
  rfl

theorem insert_insert (m : InsertionMap κ β) (k : κ) (v : β) :
    (m.insert k v).insert k v = m.insert k v := by
  refine ext_of_keys ?_ fun l => ?_
  · rw [keys_insert, if_pos]
    rw [keys_insert]
    split
    · assumption
    · simp
  · simp only [get?_insert]
    split <;> rfl

theorem ofList_append (entries : List (κ × β)) (k : κ) (v : β) :
    ofList (entries ++ [(k, v)]) = (ofList entries).insert k v := by
  simp [ofList]

theorem keys_ofList (entries : List (κ × β)) :
    (ofList entries).keys = (entries.map Prod.fst).eraseDups := by
  induction entries using List.reverseRecOn with
  | nil => simp [ofList]
  | append_singleton entries entry ih =>
      obtain ⟨k, v⟩ := entry
      rw [ofList_append, keys_insert, ih, List.map_append, List.eraseDups_append]
      simp only [List.mem_eraseDups, List.removeAll, List.map_cons, List.map_nil]
      by_cases h : k ∈ entries.map Prod.fst
      · simp [h]
      · simp [h, List.eraseDups_cons]

theorem get?_ofList_of_mem {entries : List (κ × β)} {k : κ} {v : β} (mem : (k, v) ∈ entries)
    (same : ∀ w, (k, w) ∈ entries → w = v) : (ofList entries).get? k = some v := by
  induction entries using List.reverseRecOn with
  | nil => simp at mem
  | append_singleton entries entry ih =>
      obtain ⟨l, u⟩ := entry
      rw [ofList_append, get?_insert]
      by_cases hl : k = l
      · rw [if_pos hl, same u (by simp [hl])]
      · rw [if_neg hl]
        have earlier : (k, v) ∈ entries := by
          simpa [hl] using mem
        exact ih earlier fun w hw => same w (List.mem_append_left _ hw)

theorem get?_ofList_eq_none {entries : List (κ × β)} {k : κ} (h : k ∉ entries.map Prod.fst) :
    (ofList entries).get? k = none := by
  rw [get?_eq_none, keys_ofList, List.mem_eraseDups]
  exact h

theorem get?_ofList {entries : List (κ × β)}
    (same : ∀ k v w, (k, v) ∈ entries → (k, w) ∈ entries → v = w) {k : κ} {v : β} :
    (ofList entries).get? k = some v ↔ (k, v) ∈ entries := by
  constructor
  · intro h
    by_cases hk : k ∈ entries.map Prod.fst
    · obtain ⟨⟨l, w⟩, mem, rfl⟩ := List.mem_map.mp hk
      have value := get?_ofList_of_mem mem fun u hu => same l u w hu mem
      rw [value, Option.some.injEq] at h
      exact h ▸ mem
    · rw [get?_ofList_eq_none hk] at h
      cases h
  · intro mem
    exact get?_ofList_of_mem mem fun w hw => same k w v hw mem

section Union

theorem get?_foldl_insert (m : InsertionMap κ β) {entries : List (κ × β)}
    (distinct : (entries.map Prod.fst).Nodup) (k : κ) :
    (entries.foldl (fun m entry => m.insert entry.1 entry.2) m).get? k =
      (entries.lookup k).or (m.get? k) := by
  induction entries generalizing m with
  | nil => rfl
  | cons entry rest ih =>
      obtain ⟨l, v⟩ := entry
      obtain ⟨absent, nodup⟩ := List.nodup_cons.mp distinct
      rw [List.foldl_cons, ih _ nodup, get?_insert]
      by_cases hl : k = l
      · have missing : rest.lookup k = none := List.lookup_eq_none_iff.mpr fun p mem => by
          simpa using fun eq => absent (List.mem_map.mpr ⟨p, mem, eq.symm.trans hl⟩)
        simp [hl, hl ▸ missing]
      · rw [if_neg hl, lookup_cons_of_ne hl]

theorem get?_union (m n : InsertionMap κ β) (k : κ) :
    (m.union n).get? k = (n.get? k).or (m.get? k) :=
  get?_foldl_insert m n.distinct k

theorem keys_foldl_insert (m : InsertionMap κ β) {entries : List (κ × β)}
    (distinct : (entries.map Prod.fst).Nodup) :
    (entries.foldl (fun m entry => m.insert entry.1 entry.2) m).keys =
      m.keys ++ (entries.map Prod.fst).filter fun k => k ∉ m.keys := by
  induction entries generalizing m with
  | nil => simp
  | cons entry rest ih =>
      obtain ⟨l, v⟩ := entry
      obtain ⟨absent, nodup⟩ := List.nodup_cons.mp distinct
      rw [List.foldl_cons, ih _ nodup, keys_insert, List.map_cons]
      by_cases hl : l ∈ m.keys
      · simp [hl]
      · have apart : ∀ k ∈ rest.map Prod.fst, k ≠ l := fun k mem eq => absent (eq ▸ mem)
        have same : (rest.map Prod.fst).filter (fun k => k ∉ m.keys ++ [l]) =
            (rest.map Prod.fst).filter fun k => k ∉ m.keys :=
          List.filter_congr fun k mem => by simp [apart k mem]
        rw [if_neg hl, same, List.filter_cons_of_pos (by simpa using hl), List.append_assoc]
        rfl

theorem keys_union (m n : InsertionMap κ β) :
    (m.union n).keys = m.keys ++ n.keys.filter fun k => k ∉ m.keys :=
  keys_foldl_insert m n.distinct

theorem entries_foldl_insert (m : InsertionMap κ β) {entries : List (κ × β)}
    (distinct : (entries.map Prod.fst).Nodup) (apart : ∀ k ∈ entries.map Prod.fst, k ∉ m.keys) :
    (entries.foldl (fun m entry => m.insert entry.1 entry.2) m).entries = m.entries ++ entries := by
  induction entries generalizing m with
  | nil => simp
  | cons entry rest ih =>
      obtain ⟨k, v⟩ := entry
      obtain ⟨absent, nodup⟩ := List.nodup_cons.mp distinct
      obtain ⟨new, apart⟩ := List.forall_mem_cons.mp apart
      have apart_later : ∀ l ∈ rest.map Prod.fst, l ∉ (m.insert k v).keys := by
        intro l mem
        rw [keys_insert, if_neg new, List.mem_append, List.mem_singleton, not_or]
        exact ⟨apart l mem, fun eq => absent (eq ▸ mem)⟩
      have entries_insert : (m.insert k v).entries = m.entries ++ [(k, v)] := place_of_absent v new
      rw [List.foldl_cons, ih _ nodup apart_later, entries_insert, List.append_assoc,
        List.singleton_append]

theorem take_union {m n : InsertionMap κ β} (apart : ∀ k ∈ n.keys, k ∉ m.keys) :
    (m.union n).take m.size = m := by
  have entries : (m.union n).entries = m.entries ++ n.entries :=
    entries_foldl_insert m n.distinct apart
  obtain ⟨items, distinct⟩ := m
  simp only [take, size, entries, List.take_left]

theorem empty_union (m : InsertionMap κ β) : (∅ : InsertionMap κ β).union m = m :=
  ext_of_keys (by simp [keys_union]) (by simp [get?_union])

theorem union_insert (m n : InsertionMap κ β) (k : κ) (v : β) :
    m.union (n.insert k v) = (m.union n).insert k v := by
  refine ext_of_keys ?_ fun l => ?_
  · simp only [keys_union, keys_insert]
    by_cases at_m : k ∈ m.keys <;> by_cases at_n : k ∈ n.keys <;> simp [at_m, at_n]
  · rw [get?_union, get?_insert, get?_insert, get?_union]
    split <;> rfl

theorem union_ofList (l r : List (κ × β)) : (ofList l).union (ofList r) = ofList (l ++ r) := by
  induction r using List.reverseRecOn with
  | nil =>
      rw [List.append_nil]
      rfl
  | append_singleton r entry ih =>
      rw [ofList_append, union_insert, ih, ← List.append_assoc, ofList_append]

theorem ofList_union (entries : List (κ × β)) (m : InsertionMap κ β) :
    (ofList entries).union m = ofList (entries ++ m.entries) := by
  rw [union, ofList, ofList, List.foldl_append]

def Agree (m n : InsertionMap κ β) : Prop :=
  ∀ k v w, m.get? k = some v → n.get? k = some w → v = w

theorem get?_union_of_agree {m n : InsertionMap κ β} (agree : m.Agree n) {k : κ} {v : β} :
    (m.union n).get? k = some v ↔ m.get? k = some v ∨ n.get? k = some v := by
  rw [get?_union, Option.or_eq_some_iff]
  constructor
  · rintro (at_n | ⟨-, at_m⟩)
    · exact .inr at_n
    · exact .inl at_m
  · rintro (at_m | at_n)
    · cases at_n : n.get? k with
      | none => exact .inr ⟨rfl, at_m⟩
      | some w => exact .inl (congrArg some (agree k v w at_m at_n).symm)
    · exact .inl at_n

theorem union_agree {m n o : InsertionMap κ β} (agree : m.Agree n) :
    (m.union n).Agree o ↔ m.Agree o ∧ n.Agree o := by
  constructor
  · exact fun both => ⟨fun k v w at_m => both k v w ((get?_union_of_agree agree).mpr (.inl at_m)),
      fun k v w at_n => both k v w ((get?_union_of_agree agree).mpr (.inr at_n))⟩
  · rintro ⟨left, right⟩ k v w at_union at_o
    rcases (get?_union_of_agree agree).mp at_union with at_m | at_n
    · exact left k v w at_m at_o
    · exact right k v w at_n at_o

end Union

end InsertionMap

end PropertyGraph
