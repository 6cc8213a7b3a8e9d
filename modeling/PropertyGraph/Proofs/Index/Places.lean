import PropertyGraph.Proofs.Index.Ledger
import PropertyGraph.Proofs.Value.PartialOrder

/-!
Where values stand in an index. The total order puts all values in one line, whatever their kinds, so
around any value, held or not, the entries of an index fall into those below it, its own, and those
above it; a change at the value touches none but its own.
-/

namespace PropertyGraph

namespace SetMap

variable {κ α : Type} {cmp : κ → κ → Ordering} [Std.TransCmp cmp] [Ord α] [Std.TransOrd α]

def entryOf (m : SetMap κ α cmp) (k : κ) : List (κ × InsertionSet α) := (m[k]?.map (k, ·)).toList

def below (m : SetMap κ α cmp) (k : κ) : List (κ × InsertionSet α) :=
  m.toList.filter fun entry => cmp entry.1 k = .lt

def above (m : SetMap κ α cmp) (k : κ) : List (κ × InsertionSet α) :=
  m.toList.filter fun entry => cmp k entry.1 = .lt

variable {m other : SetMap κ α cmp} {k : κ} {entry : κ × InsertionSet α}

theorem mem_entryOf : entry ∈ m.entryOf k ↔ entry.1 = k ∧ m[k]? = some entry.2 := by
  obtain ⟨l, items⟩ := entry
  rw [entryOf, Option.mem_toList, Option.map_eq_some_iff]
  constructor
  · rintro ⟨held, found, eq⟩
    cases eq
    exact ⟨rfl, found⟩
  · rintro ⟨rfl, found⟩
    exact ⟨items, found, rfl⟩

variable [Std.LawfulEqCmp cmp]

theorem mem_below : entry ∈ m.below k ↔ m[entry.1]? = some entry.2 ∧ cmp entry.1 k = .lt := by
  rw [below, List.mem_filter, ← Std.ExtTreeMap.mem_toList_iff_getElem?_eq_some, decide_eq_true_eq]

theorem mem_above : entry ∈ m.above k ↔ m[entry.1]? = some entry.2 ∧ cmp k entry.1 = .lt := by
  rw [above, List.mem_filter, ← Std.ExtTreeMap.mem_toList_iff_getElem?_eq_some, decide_eq_true_eq]

theorem ascending_around (m : SetMap κ α cmp) (k : κ) :
    (m.below k ++ m.entryOf k ++ m.above k).Pairwise fun e f => cmp e.1 f.1 = .lt := by
  have low (e) (mem : e ∈ m.below k) : cmp e.1 k = .lt := (mem_below.mp mem).2
  have high (e) (mem : e ∈ m.above k) : cmp k e.1 = .lt := (mem_above.mp mem).2
  have own (e) (mem : e ∈ m.entryOf k) : e.1 = k := (mem_entryOf.mp mem).1
  have single : (m.entryOf k).Pairwise fun e f => cmp e.1 f.1 = .lt := by
    rw [entryOf]
    cases m[k]? <;> simp
  have ascending := Std.ExtTreeMap.ordered_keys_toList (t := m)
  refine List.pairwise_append.mpr ⟨List.pairwise_append.mpr ⟨ascending.filter _, single, ?_⟩,
    ascending.filter _, ?_⟩
  · intro e mem f mem'
    rw [own f mem']
    exact low e mem
  · intro e mem f mem'
    rcases List.mem_append.mp mem with mem | mem
    · exact Std.TransCmp.lt_trans (low e mem) (high f mem')
    · rw [own e mem]
      exact high f mem'

theorem toList_eq_around (m : SetMap κ α cmp) (k : κ) :
    m.toList = m.below k ++ m.entryOf k ++ m.above k := by
  refine eq_of_ascending Std.ExtTreeMap.ordered_keys_toList (ascending_around m k) fun entry => ?_
  obtain ⟨l, items⟩ := entry
  rw [Std.ExtTreeMap.mem_toList_iff_getElem?_eq_some, List.mem_append, List.mem_append, mem_below,
    mem_entryOf, mem_above]
  constructor
  · intro found
    rcases side : cmp l k with _ | _ | _
    · exact .inl (.inl ⟨found, rfl⟩)
    · cases Std.LawfulEqCmp.eq_of_compare side
      exact .inl (.inr ⟨rfl, found⟩)
    · exact .inr ⟨found, Std.OrientedCmp.gt_iff_lt.mp side⟩
  · rintro ((⟨found, -⟩ | ⟨rfl, found⟩) | ⟨found, -⟩) <;> exact found

theorem around_congr (same : ∀ l, l ≠ k → other[l]? = m[l]?) :
    other.below k = m.below k ∧ other.above k = m.above k := by
  have ascending (m : SetMap κ α cmp) := Std.ExtTreeMap.ordered_keys_toList (t := m)
  constructor
  · refine eq_of_ascending ((ascending other).filter _) ((ascending m).filter _) fun entry => ?_
    rw [mem_below, mem_below]
    exact and_congr_left fun less => by rw [same _ (ne_of_lt less)]
  · refine eq_of_ascending ((ascending other).filter _) ((ascending m).filter _) fun entry => ?_
    rw [mem_above, mem_above]
    exact and_congr_left fun less => by rw [same _ (ne_of_lt less).symm]

end SetMap

theorem PropertyValue.order_chain {a b c : PropertyValue} {o : Ordering} (first : a.order b = o)
    (second : b.order c = o) : a.order c = o := by
  cases o with
  | lt => exact order_lt_trans first second
  | eq => rwa [eq_of_order first]
  | gt =>
      rw [Std.OrientedCmp.gt_iff_lt] at first second ⊢
      exact order_lt_trans second first

namespace PropertyIndex

variable {α : Type} [Ord α] [Std.TransOrd α]

structure Parts (index : PropertyIndex α) (value : PropertyValue)
    (below above : List (PropertyValue × InsertionSet α)) : Prop where
  toList : index.toList = below ++ index.entries.entryOf value ++ above
  below : ∀ entry ∈ below, entry.1.order value = .lt
  above : ∀ entry ∈ above, value.order entry.1 = .lt

variable {index : PropertyIndex α} {value : PropertyValue} {a : α}

theorem parts (index : PropertyIndex α) (value : PropertyValue) :
    index.Parts value (index.entries.below value) (index.entries.above value) where
  toList := SetMap.toList_eq_around _ _
  below _ mem := (SetMap.mem_below.mp mem).2
  above _ mem := (SetMap.mem_above.mp mem).2

theorem parts_of_entries {after : PropertyIndex α}
    (same : ∀ other, other ≠ value → after.entries[other]? = index.entries[other]?) :
    after.Parts value (index.entries.below value) (index.entries.above value) := by
  obtain ⟨below, above⟩ := SetMap.around_congr same
  rw [← below, ← above]
  exact after.parts value

theorem Settled.not_mem_keys (h : index.Settled) {e : Incomparable}
    (refused : index.check? value = .error e) : value ∉ index.keys := by
  intro mem
  obtain ⟨a, held⟩ :=
    List.exists_mem_of_ne_nil _ ((mem_keys_iff_itemsAt h.sound.filled).mp mem)
  rw [h.check?_of_holds held] at refused
  cases refused

variable [Std.LawfulEqOrd α]

theorem parts_erase (index : PropertyIndex α) (value : PropertyValue) (a : α) :
    (index.erase value a).Parts value (index.entries.below value) (index.entries.above value) :=
  parts_of_entries fun other apart => by
    rw [erase, SetMap.getElem?_eraseAt, if_neg apart]

theorem parts_insert? {after : PropertyIndex α} (inserted : index.insert? value a = .ok after) :
    after.Parts value (index.entries.below value) (index.entries.above value) := by
  obtain ⟨merged, -, rfl⟩ := exists_shapeWith?_of_insert? inserted
  refine parts_of_entries fun other apart => ?_
  rw [SetMap.getElem?_insertAt, if_neg apart]

theorem holds_erase {b : α} : (index.erase value a).Holds value b ↔ index.Holds value b ∧ b ≠ a := by
  rw [Holds, erase, SetMap.mem_itemsAt_eraseAt]
  simp [Holds]

theorem holds_insert? {after : PropertyIndex α} (inserted : index.insert? value a = .ok after)
    {b : α} : after.Holds value b ↔ b = a ∨ index.Holds value b := by
  obtain ⟨merged, -, rfl⟩ := exists_shapeWith?_of_insert? inserted
  rw [Holds, SetMap.mem_itemsAt_insertAt]
  simp [Holds]

theorem entries_erase_of_not_mem (absent : value ∉ index.keys) (a : α) :
    (index.erase value a).entries = index.entries := by
  cases found : index.entries[value]? with
  | none => rw [erase, SetMap.eraseAt, found]
  | some items => exact absurd (mem_keys.mpr ⟨items, found⟩) absent

theorem Settled.erase_of_not_mem (h : index.Settled) (absent : value ∉ index.keys) (a : α) :
    index.erase value a = index := by
  have entries := entries_erase_of_not_mem absent a
  have emptied : index.entries.isEmpty = true → index.shape = none := fun empty =>
    h.shape.mpr (h.sound.isEmpty_iff.mp empty)
  obtain ⟨held, shape⟩ := index
  rw [PropertyIndex.erase] at entries ⊢
  dsimp only at entries emptied ⊢
  rw [entries]
  split
  · rename_i empty
    rw [emptied empty]
  · rfl

theorem order_places (a b c : PropertyValue) (index : PropertyIndex α) (value : PropertyValue) (x : α)
    (changes : List (IndexChange α)) :
    (a.order b = (b.order a).swap ∧
      (∀ o, a.order b = o → b.order c = o → a.order c = o) ∧
      ((a.order b).isLE → (b.order c).isLE → (a.order c).isLE) ∧
      (a.order b = .eq ↔ a = b) ∧
      (∀ o, a.compare? b = .ok o → a.order b = o) ∧
      ∀ left right, a.compare? b = .error ⟨left, right⟩ →
        left ≠ right ∧ a.order b = compare left.rank right.rank) ∧
    ((index.keys.Pairwise fun v w => v.order w = .lt) ∧
      (∀ items, index.entries[value]? = some items ↔ (value, items) ∈ index.toList) ∧
      (∃ below above, index.Parts value below above ∧
        (index.erase value x).Parts value below above ∧
        (∀ y, (index.erase value x).Holds value y ↔ index.Holds value y ∧ y ≠ x) ∧
        ∀ after, index.insert? value x = .ok after → after.Parts value below above ∧
          ∀ y, after.Holds value y ↔ y = x ∨ index.Holds value y) ∧
      (value ∉ index.keys → (index.erase value x).toList = index.toList)) ∧
    ∀ e, (changes.foldl apply (∅ : PropertyIndex α)).check? value = .error e →
      value ∉ (changes.foldl apply (∅ : PropertyIndex α)).keys ∧
        (changes.foldl apply ∅).erase value x = changes.foldl apply ∅ := by
  refine ⟨⟨PropertyValue.order_swap a b, fun o => PropertyValue.order_chain,
    Std.TransCmp.isLE_trans, Std.LawfulEqCmp.compare_eq_iff_eq,
    fun o => PropertyValue.order_of_compare?, fun left right => PropertyValue.order_of_incomparable⟩,
    ⟨ascending_keys index, fun items => Std.ExtTreeMap.mem_toList_iff_getElem?_eq_some.symm,
      ⟨_, _, parts index value, parts_erase index value x, fun y => holds_erase,
        fun after inserted => ⟨parts_insert? inserted, fun y => holds_insert? inserted⟩⟩,
      fun absent => ?_⟩, fun e refused => ?_⟩
  · rw [toList, entries_erase_of_not_mem absent]
    rfl
  · have settled := (Reachable.empty.foldl changes).settled
    have absent := settled.not_mem_keys refused
    exact ⟨absent, settled.erase_of_not_mem absent x⟩

section Kinds

open PropertyValue

/-- An index with keys of every shape, as no insertion lets it become. -/
def manyKinds : PropertyIndex NodeId where
  entries := [(list [string "x"], ⟨0⟩), (boolean true, ⟨1⟩), (list [integer 1], ⟨2⟩),
    (integer 3, ⟨1⟩)].foldl (fun entries (value, id) => SetMap.insertAt entries value id) ∅
  shape := none

def foreign : PropertyValue := list [float (.ofInt 1)]

theorem order_places_manyKinds :
    mixedMiddle.compare? mixedOther = .error ⟨.boolean, .string⟩ ∧
      mixedMiddle.order mixedOther = .lt ∧ mixedOther.order mixedHigh = .lt ∧
      mixedMiddle.order mixedHigh = .lt ∧
      manyKinds.keys = [boolean true, integer 3, list [integer 1], list [string "x"]] ∧
      foreign ∉ manyKinds.keys ∧
      (manyKinds.erase foreign ⟨1⟩).toList = manyKinds.toList ∧
      (∃ taken below above, manyKinds.insert? foreign ⟨1⟩ = .ok taken ∧
        taken.keys = [boolean true, integer 3, list [integer 1], foreign, list [string "x"]] ∧
        manyKinds.Parts foreign below above ∧ taken.Parts foreign below above ∧
        taken.Holds foreign ⟨1⟩) ∧
      ([.insert (integer 3) ⟨0⟩].foldl apply (∅ : PropertyIndex NodeId)).check? foreign =
        .error ⟨.list, .integer⟩ ∧
      ([.insert (integer 3) ⟨0⟩].foldl apply (∅ : PropertyIndex NodeId)).erase foreign ⟨1⟩ =
        [.insert (integer 3) ⟨0⟩].foldl apply ∅ := by
  have apart : mixedMiddle.compare? mixedOther = .error ⟨.boolean, .string⟩ := rfl
  have first : mixedMiddle.order mixedOther = .lt := rfl
  have second : mixedOther.order mixedHigh = .lt := rfl
  have absent : foreign ∉ manyKinds.keys := by decide
  have refused : ([.insert (integer 3) ⟨0⟩].foldl apply (∅ : PropertyIndex NodeId)).check? foreign =
      .error ⟨.list, .integer⟩ := by decide
  have taken : ∃ taken, manyKinds.insert? foreign ⟨1⟩ = .ok taken ∧
      taken.keys = [boolean true, integer 3, list [integer 1], foreign, list [string "x"]] :=
    ⟨_, rfl, by decide⟩
  obtain ⟨⟨-, chain, -⟩, ⟨-, -, ⟨below, above, parts, -, -, inserted⟩, kept⟩, unknown⟩ :=
    order_places mixedMiddle mixedOther mixedHigh manyKinds foreign ⟨1⟩ [.insert (integer 3) ⟨0⟩]
  obtain ⟨after, accepted, keys⟩ := taken
  obtain ⟨parts_after, holds⟩ := inserted after accepted
  exact ⟨apart, first, second, chain .lt first second, by decide, absent, kept absent,
    ⟨after, below, above, accepted, keys, parts, parts_after, (holds _).mpr (.inl rfl)⟩, refused,
    (unknown _ refused).2⟩

end Kinds

end PropertyIndex

end PropertyGraph
