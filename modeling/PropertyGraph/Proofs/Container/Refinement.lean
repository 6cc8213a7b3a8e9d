import PropertyGraph.Proofs.Container.InsertionMap
import PropertyGraph.Proofs.Container.InsertionSet
import Mathlib.Data.List.Perm.Subperm

namespace PropertyGraph

inductive SetChange (α : Type) where
  | add (a : α)
  | remove (a : α)

namespace SetChange

variable {α : Type}

def replay {σ : Type} (change : σ → SetChange α → σ × Bool) (state : σ) :
    List (SetChange α) → σ × List Bool
  | [] => (state, [])
  | first :: rest =>
      let (next, answer) := change state first
      let (last, answers) := replay change next rest
      (last, answer :: answers)

def onList [DecidableEq α] (items : List α) : SetChange α → List α × Bool
  | .add a => if a ∈ items then (items, false) else (items ++ [a], true)
  | .remove a => if a ∈ items then (items.erase a, true) else (items, false)

theorem replay_simulates {σ τ : Type} {f : σ → SetChange α → σ × Bool}
    {g : τ → SetChange α → τ × Bool} {rel : σ → τ → Prop}
    (step : ∀ s t change, rel s t → rel (f s change).1 (g t change).1 ∧
      (f s change).2 = (g t change).2)
    {s : σ} {t : τ} (start : rel s t) (changes : List (SetChange α)) :
    rel (replay f s changes).1 (replay g t changes).1 ∧
      (replay f s changes).2 = (replay g t changes).2 := by
  induction changes generalizing s t with
  | nil => exact ⟨start, rfl⟩
  | cons change rest ih =>
      obtain ⟨kept, answer⟩ := step s t change start
      obtain ⟨last, answers⟩ := ih kept
      exact ⟨last, List.cons_eq_cons.mpr ⟨answer, answers⟩⟩

end SetChange

namespace InsertionSet

variable {α : Type}

section Slots

theorem length_eq_filterMap_add_countP (slots : List (Option α)) :
    slots.length = (slots.filterMap id).length + slots.countP Option.isNone := by
  induction slots with
  | nil => rfl
  | cons slot rest ih =>
      cases slot with
      | none =>
          rw [List.length_cons, ih]
          simp [Nat.add_assoc]
      | some a =>
          rw [List.length_cons, ih]
          simp [Nat.add_right_comm]

theorem map_some_filterMap (slots : List (Option α)) :
    (slots.filterMap id).map some = slots.filter Option.isSome := by
  induction slots with
  | nil => rfl
  | cons slot rest ih =>
      cases slot with
      | none => exact ih
      | some a => exact congrArg (some a :: ·) ih

variable [Ord α] [Std.TransOrd α]

/-- Files each item of the slots under its place, counted from `first` on; what was filed for the
item before is replaced. -/
def refile (positions : Std.ExtTreeMap α Nat) (first : Nat) :
    List (Option α) → Std.ExtTreeMap α Nat
  | [] => positions
  | none :: rest => refile positions (first + 1) rest
  | some a :: rest => refile (positions.insert a first) (first + 1) rest

variable [Std.LawfulEqOrd α]

theorem getElem?_refile_of_not_mem {slots : List (Option α)} {a : α} (absent : some a ∉ slots)
    (positions : Std.ExtTreeMap α Nat) (first : Nat) :
    (refile positions first slots)[a]? = positions[a]? := by
  induction slots generalizing positions first with
  | nil => rfl
  | cons slot rest ih =>
      obtain ⟨other, later⟩ := not_or.mp (mt List.mem_cons.mpr absent)
      cases slot with
      | none => exact ih later positions (first + 1)
      | some b =>
          have apart : compare b a ≠ .eq := fun equal =>
            other (congrArg some (Std.LawfulEqOrd.eq_of_compare equal).symm)
          rw [refile, ih later, Std.ExtTreeMap.getElem?_insert, if_neg apart]

theorem getElem?_refile {slots : List (Option α)} (distinct : (slots.filterMap id).Nodup) {a : α}
    {i : Nat} (there : slots[i]? = some (some a)) (positions : Std.ExtTreeMap α Nat) (first : Nat) :
    (refile positions first slots)[a]? = some (first + i) := by
  induction slots generalizing positions first i with
  | nil => cases there
  | cons slot rest ih =>
      cases slot with
      | none =>
          cases i with
          | zero => cases there
          | succ i => rw [refile, ih distinct there, Nat.add_assoc, Nat.add_comm 1]
      | some b =>
          obtain ⟨once, distinct⟩ := List.nodup_cons.mp distinct
          cases i with
          | zero =>
              cases there
              have absent : some a ∉ rest := fun mem =>
                once (List.mem_filterMap.mpr ⟨some a, mem, rfl⟩)
              rw [refile, getElem?_refile_of_not_mem absent]
              simp
          | succ i => rw [refile, ih distinct there, Nat.add_assoc, Nat.add_comm 1]

/-- The second set has the slots of the first without the cleared ones, and every item filed anew
over its old position. -/
def Compacts (s t : InsertionSet α) : Prop :=
  t.slots.toList = s.slots.toList.filter Option.isSome ∧
    t.positions = refile s.positions 0 (s.slots.toList.filter Option.isSome)

theorem compacts_sweep (s : InsertionSet α)
    (many : slack < s.clearedSlots ∧ s.size < s.clearedSlots) : s.Compacts s.sweep := by
  have swept : s.sweep = ofList s.toList := if_pos many
  have slots : s.sweep.slots.toList = s.slots.toList.filter Option.isSome := by
    rw [swept, slots_ofList s.nodup_toList, toList, map_some_filterMap]
  refine ⟨slots, Std.ExtTreeMap.ext_getElem? fun a => ?_⟩
  have distinct : (s.sweep.slots.toList.filterMap id).Nodup := s.sweep.nodup_toList
  rw [← slots]
  cases found : s.sweep.positions[a]? with
  | some i =>
      have there := (s.sweep.sound a i).mp found
      rw [getElem?_refile distinct (by simpa using there), Nat.zero_add]
  | none =>
      have absent : a ∉ s.sweep.toList := positions_eq_none.mp found
      have gone : some a ∉ s.sweep.slots.toList := fun mem =>
        absent (List.mem_filterMap.mpr ⟨some a, mem, rfl⟩)
      rw [getElem?_refile_of_not_mem gone, positions_eq_none.mpr (toList_sweep s ▸ absent)]

end Slots

section Cleared

variable [Ord α] [Std.TransOrd α]

def Tidy (s : InsertionSet α) : Prop := s.clearedSlots ≤ max slack s.size

theorem tidy_empty : (∅ : InsertionSet α).Tidy := Nat.zero_le _

variable [Std.LawfulEqOrd α]

theorem size_slots (s : InsertionSet α) :
    s.slots.size = s.size + s.slots.toList.countP Option.isNone := by
  rw [size_eq_length, ← Array.length_toList]
  exact length_eq_filterMap_add_countP _

theorem clearedSlots_eq_countP (s : InsertionSet α) :
    s.clearedSlots = s.slots.toList.countP Option.isNone := by
  rw [clearedSlots, size_slots, size, Nat.add_sub_cancel_left]

theorem Tidy.insert {s : InsertionSet α} (h : s.Tidy) (a : α) : (s.insert a).Tidy := by
  by_cases there : a ∈ s.toList
  · rwa [toList_insert_of_mem there]
  · have same : (s.insert a).clearedSlots = s.clearedSlots := by
      rw [clearedSlots_eq_countP, clearedSlots_eq_countP, slots_insert_of_not_mem there]
      simp
    have larger : (s.insert a).size = s.size + 1 := by
      simp [size_eq_length, toList_insert_of_not_mem there]
    unfold Tidy at h ⊢
    omega

theorem Tidy.foldl_insert {s : InsertionSet α} (h : s.Tidy) (items : List α) :
    (items.foldl InsertionSet.insert s).Tidy := by
  induction items generalizing s with
  | nil => exact h
  | cons a rest ih => exact ih (h.insert a)

theorem tidy_ofList (items : List α) : (ofList items).Tidy := tidy_empty.foldl_insert items

theorem tidy_sweep (s : InsertionSet α) : s.sweep.Tidy := by
  unfold sweep
  split
  · exact tidy_ofList s.toList
  · unfold Tidy
    omega

theorem Tidy.erase {s : InsertionSet α} (h : s.Tidy) (a : α) : (s.erase a).Tidy := by
  unfold InsertionSet.erase
  split
  · exact tidy_sweep _
  · exact h

end Cleared

section Changes

variable [Ord α] [Std.TransOrd α] [Std.LawfulEqOrd α]

def change (s : InsertionSet α) : SetChange α → InsertionSet α × Bool
  | .add a => s.add a
  | .remove a => s.remove a

theorem Tidy.change {s : InsertionSet α} (h : s.Tidy) (change : SetChange α) :
    (s.change change).1.Tidy := by
  cases change with
  | add a => exact h.insert a
  | remove a => exact h.erase a

theorem sameItems_iff {s t : InsertionSet α} :
    s.sameItems t = true ↔ ∀ a, a ∈ s.toList ↔ a ∈ t.toList := by
  rw [sameItems, Bool.and_eq_true, beq_iff_eq, List.all_eq_true, size_eq_length, size_eq_length]
  simp only [contains_iff_mem]
  constructor
  · rintro ⟨sizes, within⟩ a
    have perm := (s.nodup_toList.subperm within).perm_of_length_le (Nat.le_of_eq sizes.symm)
    exact perm.mem_iff
  · intro members
    have perm := (List.perm_ext_iff_of_nodup s.nodup_toList t.nodup_toList).mpr members
    exact ⟨perm.length_eq, fun a mem => (members a).mp mem⟩

/-- What can be seen of the set is what the list says; each position is that of its own item, few
slots are cleared, and a removal that clears too many compacts them in place. -/
structure Refines [DecidableEq α] (s : InsertionSet α) (items : List α) : Prop where
  distinct : items.Nodup
  toList : s.toList = items
  contains : ∀ a, s.contains a = decide (a ∈ items)
  size : s.size = items.length
  isEmpty : s.isEmpty = items.isEmpty
  filed : ∀ a ∈ items, ∃ i, s.positions[a]? = some i
  placed : ∀ (a : α) (i : Nat), s.positions[a]? = some i →
    i < s.slots.size ∧ s.slots[i]? = some (some a)
  counted : s.slots.size = s.positions.size + s.slots.toList.countP Option.isNone
  cleared : s.slots.toList.countP Option.isNone ≤ max 32 s.positions.size
  compacted : ∀ a ∈ items,
    32 < (s.clear a).clearedSlots ∧ (s.clear a).size < (s.clear a).clearedSlots →
      (s.clear a).Compacts (s.erase a)

variable [DecidableEq α]

theorem Tidy.refines {s : InsertionSet α} (h : s.Tidy) : s.Refines s.toList where
  distinct := s.nodup_toList
  toList := rfl
  contains a := by rw [Bool.eq_iff_iff, contains_iff_mem, decide_eq_true_iff]
  size := s.size_eq_length
  isEmpty := by rw [Bool.eq_iff_iff, isEmpty_iff, List.isEmpty_iff]
  filed _ mem := mem_toList.mp mem
  placed a i found := by
    have there := (s.sound a i).mp found
    exact ⟨(Array.getElem?_eq_some_iff.mp there).1, there⟩
  counted := s.size_slots
  cleared := s.clearedSlots_eq_countP ▸ h
  compacted a mem many := by
    have swept : s.erase a = (s.clear a).sweep := if_pos (contains_iff_mem.mpr mem)
    exact swept ▸ compacts_sweep (s.clear a) many

theorem toList_foldl_insert_eq (items : List α) (s : InsertionSet α) :
    (items.foldl insert s).toList = s.toList ++ (items.filter (· ∉ s.toList)).eraseDups := by
  induction items generalizing s with
  | nil => simp
  | cons a rest ih =>
      rw [List.foldl_cons, ih]
      by_cases there : a ∈ s.toList
      · rw [toList_insert_of_mem there, List.filter_cons_of_neg (by simpa using there)]
      · rw [toList_insert_of_not_mem there, List.filter_cons_of_pos (by simpa using there),
          List.eraseDups_cons, List.append_assoc, List.filter_filter, List.singleton_append]
        congr 4
        funext b
        by_cases same : b = a <;> simp [same]

theorem toList_ofList_eq (items : List α) : (ofList items).toList = items.eraseDups := by
  rw [ofList, toList_foldl_insert_eq]
  simp

theorem change_eq_onList (s : InsertionSet α) (change : SetChange α) :
    ((s.change change).1.toList, (s.change change).2) = change.onList s.toList := by
  cases change with
  | add a =>
      by_cases there : a ∈ s.toList
      · simp [InsertionSet.change, add, SetChange.onList, there, toList_insert_of_mem,
          contains_iff_mem.mpr there]
      · have absent : s.contains a = false := by rwa [Bool.eq_false_iff, ne_eq, contains_iff_mem]
        simp [InsertionSet.change, add, SetChange.onList, there, toList_insert_of_not_mem, absent]
  | remove a =>
      by_cases there : a ∈ s.toList
      · have taken : (s.erase a).toList = s.toList.erase a := by
          rw [toList_erase, s.nodup_toList.erase_eq_filter]
          exact List.filter_congr fun b _ => by by_cases same : b = a <;> simp [same]
        simp [InsertionSet.change, remove, SetChange.onList, there, taken,
          contains_iff_mem.mpr there]
      · have absent : s.contains a = false := by rwa [Bool.eq_false_iff, ne_eq, contains_iff_mem]
        simp [InsertionSet.change, remove, SetChange.onList, there, erase, absent]

def after (items : List α) (changes : List (SetChange α)) : InsertionSet α × List Bool :=
  SetChange.replay change (ofList items) changes

def listAfter (items : List α) (changes : List (SetChange α)) : List α × List Bool :=
  SetChange.replay SetChange.onList items.eraseDups changes

theorem after_tidy_listed (items : List α) (changes : List (SetChange α)) :
    ((after items changes).1.Tidy ∧ (after items changes).1.toList = (listAfter items changes).1) ∧
      (after items changes).2 = (listAfter items changes).2 := by
  have step (s : InsertionSet α) (items : List α) (change : SetChange α)
      (alike : s.Tidy ∧ s.toList = items) :
      ((s.change change).1.Tidy ∧ (s.change change).1.toList = (change.onList items).1) ∧
        (s.change change).2 = (change.onList items).2 := by
    obtain ⟨tidy, rfl⟩ := alike
    obtain ⟨same, answer⟩ := Prod.mk.inj (change_eq_onList s change)
    exact ⟨⟨tidy.change change, same⟩, answer⟩
  exact SetChange.replay_simulates (fun s items => step s items)
    ⟨tidy_ofList items, toList_ofList_eq items⟩ changes

theorem refines_list (items : List α) (changes : List (SetChange α)) :
    (after items changes).1.Refines (listAfter items changes).1 ∧
      (after items changes).2 = (listAfter items changes).2 ∧
      ∀ items' changes', (after items changes).1.sameItems (after items' changes').1 = true ↔
        ∀ a, a ∈ (listAfter items changes).1 ↔ a ∈ (listAfter items' changes').1 := by
  obtain ⟨⟨tidy, listed⟩, answers⟩ := after_tidy_listed items changes
  refine ⟨listed ▸ tidy.refines, answers, fun items' changes' => ?_⟩
  obtain ⟨⟨-, listed'⟩, -⟩ := after_tidy_listed items' changes'
  rw [sameItems_iff, listed, listed']

end Changes

/-- Forty items of which the first 34 go, the 33rd with a sweep; then one comes back, the last one
goes from the position that the sweep gave it, and two changes have no effect. -/
def thinned : List (SetChange Nat) :=
  (List.range 34).map .remove ++ [.add 3, .remove 39, .remove 100, .add 34]

theorem refines_list_thinned :
    listAfter (List.range 40 ++ [7]) thinned =
        ([34, 35, 36, 37, 38, 3], List.replicate 36 true ++ [false, false]) ∧
      (after (List.range 40 ++ [7]) thinned).1.slots =
        #[none, some 34, some 35, some 36, some 37, some 38, none, some 3] ∧
      (after (List.range 40 ++ [7]) thinned).1.Refines [34, 35, 36, 37, 38, 3] ∧
      (after (List.range 40 ++ [7]) thinned).2 = List.replicate 36 true ++ [false, false] ∧
      ∀ items' changes',
        (after (List.range 40 ++ [7]) thinned).1.sameItems (after items' changes').1 = true ↔
          ∀ a, a ∈ [34, 35, 36, 37, 38, 3] ↔ a ∈ (listAfter items' changes').1 := by
  have listed : listAfter (List.range 40 ++ [7]) thinned =
      ([34, 35, 36, 37, 38, 3], List.replicate 36 true ++ [false, false]) := by decide +kernel
  have slots : (after (List.range 40 ++ [7]) thinned).1.slots =
      #[none, some 34, some 35, some 36, some 37, some 38, none, some 3] := by decide +kernel
  have refines := refines_list (List.range 40 ++ [7]) thinned
  rw [listed] at refines
  exact ⟨listed, slots, refines⟩

end InsertionSet

end PropertyGraph
