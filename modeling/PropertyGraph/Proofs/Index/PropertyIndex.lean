import PropertyGraph.Index.PropertyIndex
import PropertyGraph.Proofs.Container.SetMap

/-!
An index against the pairs that it should hold. Its shape stays above the shapes of its values, so
whatever was taken out can be put back.
-/

namespace PropertyGraph

namespace Shape

theorem merge?_self (shape : Shape) : shape.merge? shape = .ok shape := by
  induction shape with
  | listOf item ih => simp [merge?, ih, Except.map]
  | _ => simp [merge?]

theorem merge?_right {seen shape merged : Shape} (h : seen.merge? shape = .ok merged) :
    merged.merge? shape = .ok merged := by
  induction seen generalizing shape merged with
  | listOf item ih =>
      cases shape with
      | listOf other =>
          cases inner : item.merge? other with
          | error e => simp [merge?, inner, Except.map] at h
          | ok below =>
              have value : merged = .listOf below := by simpa [merge?, inner, Except.map, eq_comm] using h
              simp [value, merge?, ih inner, Except.map]
      | emptyList =>
          have value : merged = .listOf item := by simpa [merge?, eq_comm] using h
          simp [value, merge?]
      | _ => simp [merge?] at h
  | emptyList =>
      cases shape <;> simp only [merge?, Except.ok.injEq, reduceCtorEq, if_false] at h <;> subst h
      · rfl
      · exact merge?_self _
  | _ =>
      cases shape <;> simp [merge?] at h
      subst h
      exact merge?_self _

theorem merge?_left {seen shape merged below : Shape} (h : seen.merge? shape = .ok merged)
    (hb : seen.merge? below = .ok seen) : merged.merge? below = .ok merged := by
  induction seen generalizing shape merged below with
  | listOf item ih =>
      cases shape with
      | listOf other =>
          cases inner : item.merge? other with
          | error e => simp [merge?, inner, Except.map] at h
          | ok joined =>
              have value : merged = .listOf joined := by
                simpa [merge?, inner, Except.map, eq_comm] using h
              cases below with
              | listOf under =>
                  cases low : item.merge? under with
                  | error e => simp [merge?, low, Except.map] at hb
                  | ok kept =>
                      have same : kept = item := by simpa [merge?, low, Except.map] using hb
                      simp [value, merge?, ih inner (same ▸ low), Except.map]
              | _ => simp_all [merge?]
      | emptyList =>
          have value : merged = .listOf item := by simpa [merge?, eq_comm] using h
          exact value ▸ hb
      | _ => simp_all [merge?]
  | emptyList =>
      cases below with
      | emptyList =>
          cases shape <;> simp only [merge?, Except.ok.injEq, reduceCtorEq, if_false] at h <;>
            subst h <;> rfl
      | _ => simp [merge?] at hb
  | _ =>
      cases shape <;> simp [merge?] at h
      subst h
      exact hb

end Shape

namespace PropertyIndex

variable {α : Type} [Ord α] [Std.TransOrd α]

structure Sound (index : PropertyIndex α) (holds : PropertyValue → α → Prop) : Prop where
  mem : ∀ {value a}, a ∈ index.entries.itemsAt value ↔ holds value a
  filled : index.entries.Filled
  shaped : ∀ {value a}, holds value a → ∃ seen shape, index.shape = some seen ∧
    Shape.of? value = .ok shape ∧ seen.merge? shape = .ok seen

variable {index : PropertyIndex α} {holds : PropertyValue → α → Prop}

theorem sound_empty : (∅ : PropertyIndex α).Sound fun _ _ => False where
  mem := by
    intro value a
    exact iff_of_false (by
      change a ∉ SetMap.itemsAt ∅ value
      simp) id
  filled := SetMap.filled_empty
  shaped := False.elim

theorem Sound.congr {other : PropertyValue → α → Prop} (h : index.Sound holds)
    (same : ∀ value a, holds value a ↔ other value a) : index.Sound other where
  mem := h.mem.trans (same _ _)
  filled := h.filled
  shaped there := h.shaped ((same _ _).mpr there)

theorem shapeWith?_eq_ok {value : PropertyValue} {merged : Shape}
    (h : index.shapeWith? value = .ok merged) : ∃ shape, Shape.of? value = .ok shape ∧
      merged.merge? shape = .ok merged ∧
      ∀ seen, index.shape = some seen → seen.merge? shape = .ok merged := by
  unfold shapeWith? at h
  split at h
  · cases h
  · rename_i shape shape_eq none_seen
    cases h
    exact ⟨merged, shape_eq, Shape.merge?_self merged, fun seen eq => by simp [none_seen] at eq⟩
  · rename_i shape seen shape_eq some_seen
    exact ⟨shape, shape_eq, Shape.merge?_right h, fun other eq => by
      rw [some_seen] at eq
      cases eq
      exact h⟩

variable [Std.LawfulEqOrd α]

theorem exists_shapeWith?_of_insert? {value : PropertyValue} {a : α} {after : PropertyIndex α}
    (ok : index.insert? value a = .ok after) : ∃ merged, index.shapeWith? value = .ok merged ∧
      after = ⟨SetMap.insertAt index.entries value a, some merged⟩ := by
  rw [PropertyIndex.insert?] at ok
  cases merges : index.shapeWith? value with
  | error e =>
      rw [merges] at ok
      cases ok
  | ok merged =>
      rw [merges] at ok
      cases ok
      exact ⟨merged, rfl, rfl⟩

theorem Sound.insert? (h : index.Sound holds) {value : PropertyValue} {a : α}
    {after : PropertyIndex α} (ok : index.insert? value a = .ok after) :
    after.Sound fun other b => (other = value ∧ b = a) ∨ holds other b := by
  obtain ⟨merged, with_shape, rfl⟩ := exists_shapeWith?_of_insert? ok
  obtain ⟨shape, shape_eq, above, grown⟩ := shapeWith?_eq_ok with_shape
  refine ⟨?_, SetMap.filled_insertAt h.filled value a, ?_⟩
  · intro other b
    rw [SetMap.mem_itemsAt_insertAt, h.mem]
  · intro other b there
    rcases there with ⟨rfl, rfl⟩ | there
    · exact ⟨merged, shape, rfl, shape_eq, above⟩
    · obtain ⟨seen, below, seen_eq, below_eq, low⟩ := h.shaped there
      exact ⟨merged, below, rfl, below_eq, Shape.merge?_left (grown seen seen_eq) low⟩

theorem Sound.erase (h : index.Sound holds) (value : PropertyValue) (a : α) :
    (index.erase value a).Sound fun other b => holds other b ∧ ¬(other = value ∧ b = a) := by
  have mem : ∀ {other b}, b ∈ (SetMap.eraseAt index.entries value a).itemsAt other ↔
      holds other b ∧ ¬(other = value ∧ b = a) := by
    intro other b
    rw [SetMap.mem_itemsAt_eraseAt, h.mem]
  refine ⟨mem, SetMap.filled_eraseAt h.filled value a, ?_⟩
  intro other b there
  have held : (SetMap.eraseAt index.entries value a).isEmpty = false := by
    rw [Std.ExtTreeMap.isEmpty_eq_false_iff]
    intro empty
    have listed := mem.mpr there
    rw [empty] at listed
    simp at listed
  obtain ⟨seen, shape, seen_eq, shape_eq, below⟩ := h.shaped there.1
  refine ⟨seen, shape, ?_, shape_eq, below⟩
  simp [PropertyIndex.erase, held, seen_eq]

theorem Sound.exists_insert?_erase (h : index.Sound holds) {value : PropertyValue} {a : α}
    (there : holds value a) : ∃ after, (index.erase value a).insert? value a = .ok after := by
  obtain ⟨seen, shape, seen_eq, shape_eq, below⟩ := h.shaped there
  have with_shape : ∃ merged, (index.erase value a).shapeWith? value = .ok merged := by
    by_cases emptied : (SetMap.eraseAt index.entries value a).isEmpty
    · exact ⟨shape, by simp [shapeWith?, PropertyIndex.erase, shape_eq, emptied]⟩
    · exact ⟨seen, by simp [shapeWith?, PropertyIndex.erase, shape_eq, emptied, seen_eq, below]⟩
  obtain ⟨merged, merged_eq⟩ := with_shape
  exact ⟨_, by rw [PropertyIndex.insert?, merged_eq]; rfl⟩

theorem insert?_isOk_iff_check? {value : PropertyValue} {a : α} :
    (∃ after, index.insert? value a = .ok after) ↔ index.check? value = .ok () := by
  unfold PropertyIndex.insert? check?
  cases index.shapeWith? value <;> simp [Except.map]

end PropertyIndex

end PropertyGraph
