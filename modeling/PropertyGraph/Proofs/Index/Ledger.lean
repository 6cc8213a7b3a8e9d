import PropertyGraph.Proofs.Index.Acceptance
import PropertyGraph.Proofs.Index.Comparable
import Mathlib.Data.List.Dedup

namespace PropertyGraph

abbrev Ledger (α : Type) := List (PropertyValue × α)

namespace Ledger

variable {α : Type} [DecidableEq α]

def holders (ledger : Ledger α) (value : PropertyValue) : List α :=
  (ledger.filter fun pair => pair.1.compare? value = .ok .eq).map Prod.snd

def add (ledger : Ledger α) (value : PropertyValue) (a : α) : Ledger α :=
  if a ∈ ledger.holders value then ledger else ledger ++ [(value, a)]

def remove (ledger : Ledger α) (value : PropertyValue) (a : α) : Ledger α :=
  ledger.filter fun pair => ¬(pair.1.compare? value = .ok .eq ∧ pair.2 = a)

variable {ledger : Ledger α} {value other : PropertyValue} {a b : α}

omit [DecidableEq α] in
theorem mem_holders : a ∈ ledger.holders value ↔ (value, a) ∈ ledger := by
  simp [holders, PropertyValue.compare?_eq_iff]

omit [DecidableEq α] in
theorem holders_concat (ledger : Ledger α) (value other : PropertyValue) (a : α) :
    holders (ledger ++ [(value, a)]) other =
      if other = value then ledger.holders other ++ [a] else ledger.holders other := by
  have tells : value.compare? other = .ok .eq ↔ other = value :=
    PropertyValue.compare?_eq_iff.trans eq_comm
  rw [holders, holders, List.filter_append, List.map_append]
  by_cases same : other = value <;> simp [tells, same, PropertyValue.compare?_self]

theorem holders_add (ledger : Ledger α) (value other : PropertyValue) (a : α) :
    (ledger.add value a).holders other =
      if other = value ∧ a ∉ ledger.holders value then ledger.holders other ++ [a]
      else ledger.holders other := by
  rw [add]
  by_cases there : a ∈ ledger.holders value
  · rw [if_pos there, if_neg (fun both => both.2 there)]
  · rw [if_neg there, holders_concat]
    simp only [there, not_false_iff, and_true]

theorem holders_remove (ledger : Ledger α) (value other : PropertyValue) (a : α) :
    (ledger.remove value a).holders other =
      if other = value then (ledger.holders other).filter (· ≠ a) else ledger.holders other := by
  rw [remove, holders, holders, List.filter_filter, List.filter_map, List.filter_filter]
  split
  · rename_i same
    refine congrArg _ (List.filter_congr fun pair _ => ?_)
    by_cases equal : pair.1.compare? value = .ok .eq <;> simp [same, equal]
  · rename_i apart
    refine congrArg _ (List.filter_congr fun pair _ => ?_)
    simp only [PropertyValue.compare?_eq_iff]
    by_cases equal : pair.1 = other <;> simp [equal, apart]

theorem mem_holders_add :
    b ∈ (ledger.add value a).holders other ↔ (other = value ∧ b = a) ∨ b ∈ ledger.holders other := by
  rw [holders_add]
  by_cases there : a ∈ ledger.holders value
  · rw [if_neg (fun both => both.2 there)]
    exact ⟨.inr, by rintro (⟨rfl, rfl⟩ | mem) <;> assumption⟩
  · by_cases same : other = value <;> simp [same, there, or_comm]

theorem mem_holders_remove : b ∈ (ledger.remove value a).holders other ↔
    b ∈ ledger.holders other ∧ ¬(other = value ∧ b = a) := by
  rw [holders_remove]
  by_cases same : other = value <;> simp [same]

end Ledger

namespace PropertyIndex

variable {α : Type} [Ord α] [Std.TransOrd α]

section Keys

def keys (index : PropertyIndex α) : List PropertyValue := index.toList.map Prod.fst

variable {index : PropertyIndex α}

theorem mem_keys {value : PropertyValue} :
    value ∈ index.keys ↔ ∃ items, index.entries[value]? = some items := by
  rw [keys, toList, Std.ExtTreeMap.map_fst_toList_eq_keys, Std.ExtTreeMap.mem_keys,
    ← Option.isSome_iff_exists, Std.ExtTreeMap.isSome_getElem?_iff_mem]

theorem ascending_keys (index : PropertyIndex α) :
    index.keys.Pairwise fun v w => v.order w = .lt := by
  rw [keys, toList, Std.ExtTreeMap.map_fst_toList_eq_keys]
  exact Std.ExtTreeMap.ordered_keys

theorem mem_keys_iff_itemsAt (filled : index.entries.Filled) {value : PropertyValue} :
    value ∈ index.keys ↔ index.entries.itemsAt value ≠ [] := by
  rw [mem_keys, SetMap.itemsAt]
  cases found : index.entries[value]? with
  | none => simp
  | some items => simp [filled value items found]

theorem Settled.fits (h : index.Settled) : ∃ top, ∀ value ∈ index.keys, value.Fits top := by
  have held {value : PropertyValue} (mem : value ∈ index.keys) : ∃ a, index.Holds value a :=
    List.exists_mem_of_ne_nil _ ((mem_keys_iff_itemsAt h.sound.filled).mp mem)
  cases seen : index.shape with
  | none =>
      refine ⟨.boolean, fun value mem => ?_⟩
      obtain ⟨a, there⟩ := held mem
      exact absurd there (h.shape.mp seen value a)
  | some top =>
      refine ⟨top, fun value mem => ?_⟩
      obtain ⟨a, there⟩ := held mem
      obtain ⟨top', shape, at_top, shaped, below⟩ := h.below there
      rw [seen] at at_top
      cases at_top
      exact ⟨shape, shaped, below⟩

end Keys

variable [Std.LawfulEqOrd α] [DecidableEq α]

def record (index : PropertyIndex α) (ledger : Ledger α) : IndexChange α → Ledger α
  | .insert value a =>
      match index.insert? value a with
      | .ok _ => ledger.add value a
      | .error _ => ledger
  | .remove value a => ledger.remove value a

def recordAll (index : PropertyIndex α) (ledger : Ledger α) : List (IndexChange α) → Ledger α
  | [] => ledger
  | change :: rest => (index.apply change).recordAll (index.record ledger change) rest

structure Refines (index : PropertyIndex α) (ledger : Ledger α) : Prop where
  comparable : ∀ v ∈ index.keys, ∀ w ∈ index.keys, ∃ o, v.compare? w = .ok o
  increasing : index.keys.Pairwise fun v w => v.compare? w = .ok .lt
  filled : ∀ entry ∈ index.toList, entry.2.toList ≠ []
  listed : ∀ entry ∈ index.toList, entry.2.toList = ledger.holders entry.1
  held : ∀ value, value ∈ index.keys ↔ ledger.holders value ≠ []
  lookup : ∀ value found, index.get? value = .ok found →
    (found = none ↔ ledger.holders value = []) ∧
      ∀ holders, found = some holders → holders.toList = ledger.holders value
  count : ∀ value, index.count? value =
    (index.get? value).map fun _ => (ledger.holders value).length
  size : index.size = (ledger.map Prod.fst).dedup.length
  refused : ∀ value a e, index.insert? value a = .error e → index.apply (.insert value a) = index
  unanswered : ∀ value a e, index.get? value = .error e ↔ index.insert? value a = .error e

variable {index : PropertyIndex α} {ledger : Ledger α}

section Filing

theorem itemsAt_apply (same : ∀ value, index.entries.itemsAt value = ledger.holders value)
    (change : IndexChange α) (value : PropertyValue) :
    (index.apply change).entries.itemsAt value = (index.record ledger change).holders value := by
  cases change with
  | insert other a =>
      rw [PropertyIndex.apply, record]
      cases inserted : index.insert? other a with
      | ok after =>
          obtain ⟨merged, -, rfl⟩ := exists_shapeWith?_of_insert? inserted
          rw [SetMap.itemsAt_insertAt, Ledger.holders_add, same, same]
      | error e => exact same value
  | remove other a =>
      rw [PropertyIndex.apply, PropertyIndex.erase, SetMap.itemsAt_eraseAt, record,
        Ledger.holders_remove, same]

theorem itemsAt_foldl (same : ∀ value, index.entries.itemsAt value = ledger.holders value)
    (changes : List (IndexChange α)) (value : PropertyValue) :
    (changes.foldl PropertyIndex.apply index).entries.itemsAt value =
      (index.recordAll ledger changes).holders value := by
  induction changes generalizing index ledger with
  | nil => exact same value
  | cons change rest ih => exact ih (itemsAt_apply same change)

end Filing

section Reading

theorem Settled.refines (h : index.Settled)
    (same : ∀ value, index.entries.itemsAt value = ledger.holders value) : index.Refines ledger := by
  have filled := h.sound.filled
  have held (value : PropertyValue) : value ∈ index.keys ↔ ledger.holders value ≠ [] := by
    rw [mem_keys_iff_itemsAt filled, same]
  have comparable : ∀ v ∈ index.keys, ∀ w ∈ index.keys, ∃ o, v.compare? w = .ok o := by
    obtain ⟨top, fits⟩ := h.fits
    exact fun v mem_v w mem_w => (fits v mem_v).exists_compare? (fits w mem_w)
  have increasing : index.keys.Pairwise fun v w => v.compare? w = .ok .lt := by
    refine index.ascending_keys.imp_of_mem fun {v w} mem_v mem_w less => ?_
    obtain ⟨o, compared⟩ := comparable v mem_v w mem_w
    rw [compared, ← PropertyValue.order_of_compare? compared, less]
  have entry {pair : PropertyValue × InsertionSet α} (mem : pair ∈ index.toList) :
      index.entries[pair.1]? = some pair.2 := Std.ExtTreeMap.mem_toList_iff_getElem?_eq_some.mp mem
  refine ⟨comparable, increasing, fun pair mem => filled _ _ (entry mem), fun pair mem => ?_, held,
    fun value found answered => ?_, fun value => ?_, ?_, fun value a e refused => ?_,
    fun value a e => ?_⟩
  · rw [← same, SetMap.itemsAt, entry mem, listed_some]
  · have looked_up : found = index.entries[value]? := by
      rw [get?] at answered
      cases checked : index.check? value with
      | error e =>
          rw [checked] at answered
          cases answered
      | ok =>
          rw [checked] at answered
          cases answered
          rfl
    rw [← same, SetMap.itemsAt, ← looked_up]
    cases found with
    | none => simp
    | some items => simp [filled value items looked_up.symm]
  · rw [count?, get?, ← same, SetMap.itemsAt]
    cases index.check? value with
    | error e => rfl
    | ok => cases index.entries[value]? <;> simp [Except.map, InsertionSet.size_eq_length]
  · have members : ∀ value, value ∈ index.keys ↔ value ∈ (ledger.map Prod.fst).dedup := by
      intro value
      rw [held, ne_eq, List.eq_nil_iff_forall_not_mem, List.mem_dedup]
      simp [Ledger.mem_holders]
    have distinct : index.keys.Nodup := increasing.imp fun {v w} less eq => by
      rw [eq, PropertyValue.compare?_self] at less
      cases less
    rw [← ((List.perm_ext_iff_of_nodup distinct (List.nodup_dedup _)).mpr members).length_eq, keys,
      List.length_map]
    exact (Std.ExtTreeMap.length_toList).symm
  · rw [PropertyIndex.apply, refused]
  · rw [get?, check?, PropertyIndex.insert?]
    cases index.shapeWith? value <;> simp [Except.map]

end Reading

section History

/-- An accepted insertion filed the holder under the value, and no removal has undone it since. -/
def Files (changes : List (IndexChange α)) (value : PropertyValue) (a : α) : Prop :=
  ∃ before other after, changes = before ++ .insert other a :: after ∧
    other.compare? value = .ok .eq ∧
    (∃ taken, (before.foldl apply ∅).insert? other a = .ok taken) ∧
    ∀ removed, removed.compare? value = .ok .eq → .remove removed a ∉ after

variable {changes : List (IndexChange α)} {value : PropertyValue} {a : α}

omit [DecidableEq α] in
theorem files_iff : Files changes value a ↔ ∃ before after,
    changes = before ++ .insert value a :: after ∧
      (∃ taken, (before.foldl apply ∅).insert? value a = .ok taken) ∧ .remove value a ∉ after := by
  simp only [Files, PropertyValue.compare?_eq_iff]
  constructor
  · rintro ⟨before, _, after, split, rfl, accepted, kept⟩
    exact ⟨before, after, split, accepted, kept _ rfl⟩
  · rintro ⟨before, after, split, accepted, kept⟩
    exact ⟨before, value, after, split, rfl, accepted, fun _ same => same ▸ kept⟩

omit [DecidableEq α] in
theorem files_concat (change : IndexChange α) : Files (changes ++ [change]) value a ↔
    (change = .insert value a ∧ ∃ taken, (changes.foldl apply ∅).insert? value a = .ok taken) ∨
      (Files changes value a ∧ change ≠ .remove value a) := by
  rw [files_iff, files_iff]
  constructor
  · rintro ⟨before, after, split, accepted, kept⟩
    rcases List.eq_nil_or_concat after with rfl | ⟨earlier, last, rfl⟩
    · obtain ⟨rfl, same⟩ := List.append_inj' split rfl
      exact .inl ⟨List.singleton_inj.mp same, accepted⟩
    · rw [List.concat_eq_append, ← List.cons_append, ← List.append_assoc] at split
      obtain ⟨rfl, same⟩ := List.append_inj' split rfl
      rw [List.concat_eq_append, List.mem_append, not_or, ← same, List.mem_singleton] at kept
      exact .inr ⟨⟨before, earlier, rfl, accepted, kept.1⟩, Ne.symm kept.2⟩
  · rintro (⟨rfl, accepted⟩ | ⟨⟨before, after, rfl, accepted, kept⟩, other⟩)
    · exact ⟨changes, [], rfl, accepted, List.not_mem_nil⟩
    · exact ⟨before, after ++ [change], by simp, accepted, by simp [kept, Ne.symm other]⟩

theorem recordAll_concat (index : PropertyIndex α) (ledger : Ledger α)
    (changes : List (IndexChange α)) (change : IndexChange α) :
    index.recordAll ledger (changes ++ [change]) =
      (changes.foldl apply index).record (index.recordAll ledger changes) change := by
  induction changes generalizing index ledger with
  | nil => rfl
  | cons first rest ih => exact ih _ _

theorem mem_recordAll : (value, a) ∈ recordAll ∅ [] changes ↔ Files changes value a := by
  induction changes using List.reverseRecOn with
  | nil => simp [recordAll, files_iff]
  | append_singleton changes change ih =>
      rw [files_concat, ← ih, recordAll_concat, ← Ledger.mem_holders, ← Ledger.mem_holders]
      cases change with
      | insert other b =>
          cases inserted : (changes.foldl apply ∅).insert? other b with
          | ok taken =>
              rw [record, inserted, Ledger.mem_holders_add]
              constructor
              · rintro (⟨rfl, rfl⟩ | there)
                · exact .inl ⟨rfl, taken, inserted⟩
                · exact .inr ⟨there, fun same => by cases same⟩
              · rintro (⟨same, -⟩ | ⟨there, -⟩)
                · cases same
                  exact .inl ⟨rfl, rfl⟩
                · exact .inr there
          | error e =>
              rw [record, inserted]
              constructor
              · exact fun there => .inr ⟨there, fun same => by cases same⟩
              · rintro (⟨same, taken, accepted⟩ | ⟨there, -⟩)
                · cases same
                  rw [inserted] at accepted
                  cases accepted
                · exact there
      | remove other b =>
          rw [record, Ledger.mem_holders_remove]
          simp [eq_comm]

end History

theorem refines_ledger (changes : List (IndexChange α)) :
    (changes.foldl apply (∅ : PropertyIndex α)).Refines (recordAll ∅ [] changes) ∧
      ∀ value a, a ∈ Ledger.holders (recordAll ∅ [] changes) value ↔ Files changes value a :=
  ⟨(Reachable.empty.foldl changes).settled.refines (itemsAt_foldl (fun _ => rfl) changes),
    fun _ _ => Ledger.mem_holders.trans mem_recordAll⟩

def returning : List (IndexChange NodeId) :=
  [.insert (.list [.integer 2]) ⟨1⟩, .insert (.list []) ⟨2⟩, .insert (.list [.string "a"]) ⟨3⟩,
    .insert (.list []) ⟨1⟩, .remove (.list []) ⟨2⟩, .insert (.list []) ⟨2⟩]

theorem refines_ledger_returning :
    recordAll ∅ [] returning =
        [(.list [.integer 2], ⟨1⟩), (.list [], ⟨1⟩), (.list [], ⟨2⟩)] ∧
      (returning.foldl apply ∅).keys = [.list [], .list [.integer 2]] ∧
      (returning.foldl apply ∅).Refines
        [(.list [.integer 2], ⟨1⟩), (.list [], ⟨1⟩), (.list [], ⟨2⟩)] ∧
      ∀ value a, a ∈ Ledger.holders (recordAll ∅ [] returning) value ↔ Files returning value a := by
  obtain ⟨refines, files⟩ := refines_ledger returning
  have ledger : recordAll ∅ [] returning =
      [(.list [.integer 2], ⟨1⟩), (.list [], ⟨1⟩), (.list [], ⟨2⟩)] := by decide
  exact ⟨ledger, by decide, ledger ▸ refines, files⟩

end PropertyIndex

end PropertyGraph
