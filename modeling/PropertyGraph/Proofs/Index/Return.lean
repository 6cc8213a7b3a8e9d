import PropertyGraph.Proofs.Index.Acceptance
import PropertyGraph.Proofs.Index.IndexCatalog

/-!
An index from which an item was taken out and put back. It holds what it held, with the item behind
the other holders of its value. An index that held nothing else has forgotten its shape in between
and knows only what the value tells.
-/

namespace PropertyGraph

section Last

variable {α : Type} [DecidableEq α] {items : List α} {a : α}

theorem filter_ne_append_eq_iff (nodup : items.Nodup) :
    items.filter (· ≠ a) ++ [a] = items ↔ items.getLast? = some a := by
  constructor
  · intro same
    rw [← same, List.getLast?_concat]
  · intro last
    obtain ⟨others, rfl⟩ := List.getLast?_eq_some_iff.mp last
    have absent : a ∉ others := fun mem =>
      (List.nodup_append.mp nodup).2.2 a mem a (List.mem_singleton_self a) rfl
    have kept : others.filter (· ≠ a) = others :=
      List.filter_eq_self.mpr fun b mem => by simpa using ne_of_mem_of_not_mem mem absent
    rw [List.filter_append, kept]
    simp

end Last

namespace PropertyIndex

variable {α : Type} [Ord α] [Std.TransOrd α] [Std.LawfulEqOrd α]

theorem Renews.refl (index : PropertyIndex α) : index.Renews index where
  holds _ _ := .rfl
  accepts _ accepted := accepted
  alike := iff_of_true (fun _ => .rfl) rfl
  bare _ := rfl
  complete _ _ _ _ _ _ := rfl
  later _ _ _ := rfl

variable {index after : PropertyIndex α} {value : PropertyValue} {a : α}

theorem Settled.shape_of_back (h : index.Settled) (held : index.Holds value a)
    (back : (index.erase value a).insert? value a = .ok after) : after.shape = index.shape ∨
      (∀ other b, index.Holds other b ↔ other = value ∧ b = a) ∧
        after.shape = (Shape.of? value).toOption := by
  obtain ⟨cleared, cleared_holds⟩ := h.erase value a
  obtain ⟨top, shape, at_top, shaped, below⟩ := h.below held
  obtain ⟨merged, merges, rfl⟩ := exists_shapeWith?_of_insert? back
  rw [shapeWith?, shaped] at merges
  by_cases emptied : (SetMap.eraseAt index.entries value a).isEmpty
  · have none_left := cleared.sound.isEmpty_iff.mp emptied
    rw [cleared.shape.mpr none_left] at merges
    cases merges
    rw [shaped]
    refine .inr ⟨fun other b => ⟨fun there => ?_, fun same => same.1 ▸ same.2 ▸ held⟩, rfl⟩
    exact Classical.byContradiction fun apart =>
      none_left other b ((cleared_holds other b).mpr ⟨there, apart⟩)
  · have kept : (index.erase value a).shape = some top := by
      rw [PropertyIndex.erase]
      simp only [emptied, Bool.false_eq_true, if_false, at_top]
    have joined : top.merge? shape = .ok merged := by
      rw [kept] at merges
      exact merges
    rw [Shape.merge?_eq_self_iff.mpr below] at joined
    cases joined
    exact .inl at_top.symm

variable [DecidableEq α]

structure Returns (after index : PropertyIndex α) (value : PropertyValue) (a : α) : Prop where
  renews : after.Renews index
  holders : ∀ other, after.entries.itemsAt other =
    if other = value then (index.entries.itemsAt value).filter (· ≠ a) ++ [a]
    else index.entries.itemsAt other
  shape : after.shape = index.shape ∨
    (∀ other b, index.Holds other b ↔ other = value ∧ b = a) ∧ after.shape = (Shape.of? value).toOption

theorem Settled.returns (h : index.Settled) (held : index.Holds value a)
    (back : (index.erase value a).insert? value a = .ok after) : after.Returns index value a := by
  obtain ⟨cleared, cleared_holds⟩ := h.erase value a
  obtain ⟨settled, after_holds⟩ := cleared.insert? back
  have shape := h.shape_of_back held back
  refine ⟨h.renews settled (fun other b => ?_) fun lower at_lower => ?_, fun other => ?_, shape⟩
  · rw [after_holds, cleared_holds]
    by_cases same : other = value ∧ b = a
    · exact iff_of_true (.inl same) (same.1 ▸ same.2 ▸ held)
    · simp [same]
  · rcases shape with same | ⟨-, known⟩
    · exact ⟨lower, same ▸ at_lower, .refl lower⟩
    · obtain ⟨top, shape, at_top, shaped, below⟩ := h.below held
      rw [known, shaped] at at_lower
      cases at_lower
      exact ⟨top, at_top, below⟩
  · obtain ⟨merged, -, rfl⟩ := exists_shapeWith?_of_insert? back
    rw [SetMap.itemsAt_insertAt, PropertyIndex.erase, SetMap.itemsAt_eraseAt, SetMap.itemsAt_eraseAt]
    by_cases same : other = value <;> simp [same]

theorem Returns.itemsAt_eq_iff (h : after.Returns index value a) :
    after.entries.itemsAt value = index.entries.itemsAt value ↔
      (index.entries.itemsAt value).getLast? = some a := by
  rw [h.holders, if_pos rfl]
  exact filter_ne_append_eq_iff (SetMap.nodup_itemsAt _ value)

theorem Returns.itemsAt_eq (h : after.Returns index value a)
    (last : (index.entries.itemsAt value).getLast? = some a) (other : PropertyValue) :
    after.entries.itemsAt other = index.entries.itemsAt other := by
  by_cases same : other = value
  · rw [same]
    exact h.itemsAt_eq_iff.mpr last
  · rw [h.holders, if_neg same]

end PropertyIndex

end PropertyGraph
