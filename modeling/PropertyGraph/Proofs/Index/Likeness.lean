import PropertyGraph.Index.IndexCatalog
import PropertyGraph.Proofs.Index.Acceptance

namespace PropertyGraph

def SameResult {σ ρ : Type} (related : σ → σ → Prop) (p q : σ × ρ) : Prop :=
  related p.1 q.1 ∧ p.2 = q.2

theorem SameResult.exists_eq {σ ρ : Type} {related : σ → σ → Prop} {p q : σ × ρ}
    (h : SameResult related p q) : ∃ s t result, p = (s, result) ∧ q = (t, result) ∧ related s t :=
  ⟨p.1, q.1, p.2, rfl, Prod.ext rfl h.2.symm, h.1⟩

namespace IndexCatalog

variable {α : Type} [Ord α] [Std.TransOrd α]

def Alike (indexes others : IndexCatalog α) : Prop :=
  ∀ key : String, Option.Rel PropertyIndex.Alike indexes[key]? others[key]?

variable {indexes others : IndexCatalog α}

theorem alike_empty : (∅ : IndexCatalog α).Alike ∅ := fun key => by
  rw [Std.ExtTreeMap.getElem?_empty]
  exact .none

section Access

theorem Alike.has (h : indexes.Alike others) (key : String) : indexes.has key = others.has key := by
  rw [IndexCatalog.has, IndexCatalog.has, Std.ExtTreeMap.contains_eq_isSome_getElem?,
    Std.ExtTreeMap.contains_eq_isSome_getElem?]
  have alike := h key
  generalize indexes[key]? = found, others[key]? = found' at alike
  cases alike <;> rfl

theorem Alike.insert (h : indexes.Alike others) (key : String) {index other : PropertyIndex α}
    (alike : index.Alike other) :
    Alike (Std.ExtTreeMap.insert indexes key index) (Std.ExtTreeMap.insert others key other) := by
  intro k
  rw [Std.ExtTreeMap.getElem?_insert, Std.ExtTreeMap.getElem?_insert]
  split
  · exact .some alike
  · exact h k

theorem Alike.erase (h : indexes.Alike others) (key : String) :
    Alike (Std.ExtTreeMap.erase indexes key) (Std.ExtTreeMap.erase others key) := by
  intro k
  rw [Std.ExtTreeMap.getElem?_erase, Std.ExtTreeMap.getElem?_erase]
  split
  · exact .none
  · exact h k

end Access

section Checks

theorem Alike.check? (h : indexes.Alike others) (key : String) (value : PropertyValue) :
    indexes.check? key value = others.check? key value := by
  rw [IndexCatalog.check?, IndexCatalog.check?]
  have alike := h key
  generalize indexes[key]? = found, others[key]? = found' at alike
  cases alike with
  | none => rfl
  | some alike => exact PropertyIndex.check?_of_shape alike.shape value

theorem Alike.checkAll? (h : indexes.Alike others) (props : Properties) :
    indexes.checkAll? props = others.checkAll? props := by
  rw [IndexCatalog.checkAll?, IndexCatalog.checkAll?]
  induction props.toList with
  | nil => rfl
  | cons pair rest ih => rw [checkEach?, checkEach?, h.check?, ih]

end Checks

section Changes

variable [Std.LawfulEqOrd α]

theorem Alike.insert? (h : indexes.Alike others) (key : String) (value : PropertyValue) (a : α) :
    Agree Alike (indexes.insert? key value a) (others.insert? key value a) := by
  rw [IndexCatalog.insert?, IndexCatalog.insert?]
  have alike := h key
  generalize indexes[key]? = found, others[key]? = found' at alike
  cases alike with
  | none => exact .ok h
  | @some index other alike =>
      have agree := alike.insert? value a
      dsimp only
      generalize index.insert? value a = after, other.insert? value a = other_after at agree
      cases agree with
      | ok same => exact .ok (h.insert key same)
      | error e => exact .error e

theorem Alike.remove (h : indexes.Alike others) (key : String) (value : PropertyValue) (a : α) :
    (indexes.remove key value a).Alike (others.remove key value a) := by
  rw [IndexCatalog.remove, IndexCatalog.remove]
  have alike := h key
  generalize indexes[key]? = found, others[key]? = found' at alike
  cases alike with
  | none => exact h
  | some alike => exact h.insert key (alike.erase value a)

theorem Alike.insertAll (h : indexes.Alike others) (props : Properties) (a : α) :
    SameResult Alike (indexes.insertAll props a) (others.insertAll props a) := by
  rw [IndexCatalog.insertAll, IndexCatalog.insertAll]
  induction props.toList generalizing indexes others with
  | nil => exact ⟨h, rfl⟩
  | cons pair rest ih =>
      obtain ⟨key, value⟩ := pair
      rw [insertEach, insertEach]
      have agree := h.insert? key value a
      generalize indexes.insert? key value a = after, others.insert? key value a = after' at agree
      cases agree with
      | ok same => exact ih same
      | error e => exact ⟨h, rfl⟩

theorem Alike.removeAll (h : indexes.Alike others) (props : Properties) (a : α) :
    (indexes.removeAll props a).Alike (others.removeAll props a) := by
  rw [IndexCatalog.removeAll, IndexCatalog.removeAll]
  induction props.toList generalizing indexes others with
  | nil => exact h
  | cons pair rest ih => exact ih (h.remove pair.1 pair.2 a)

theorem Alike.replace (h : indexes.Alike others) (key : String) (old : Option PropertyValue)
    (new : PropertyValue) (a : α) :
    SameResult Alike (indexes.replace key old new a) (others.replace key old new a) := by
  simp only [IndexCatalog.replace]
  cases old with
  | none =>
      have agree := h.insert? key new a
      dsimp only
      generalize indexes.insert? key new a = after, others.insert? key new a = after' at agree
      cases agree with
      | ok same => exact ⟨same, rfl⟩
      | error e => exact ⟨h, rfl⟩
  | some value =>
      have cleared := h.remove key value a
      have agree := cleared.insert? key new a
      have restored := cleared.insert? key value a
      dsimp only
      generalize indexes.remove key value a = left, others.remove key value a = right at *
      generalize left.insert? key new a = after, right.insert? key new a = after' at agree
      cases agree with
      | ok same => exact ⟨same, rfl⟩
      | error e =>
          dsimp only
          generalize left.insert? key value a = back, right.insert? key value a = back' at restored
          cases restored with
          | ok same => exact ⟨same, rfl⟩
          | error e' => exact ⟨cleared, rfl⟩

theorem Alike.fill (h : indexes.Alike others) (key : String) (holders : List (PropertyValue × α)) :
    SameResult Alike (indexes.fill key holders) (others.fill key holders) := by
  induction holders generalizing indexes others with
  | nil => exact ⟨h, rfl⟩
  | cons holder rest ih =>
      obtain ⟨value, a⟩ := holder
      rw [IndexCatalog.fill, IndexCatalog.fill]
      have agree := h.insert? key value a
      generalize indexes.insert? key value a = after, others.insert? key value a = after' at agree
      cases agree with
      | ok same => exact ih same
      | error e => exact ⟨h, rfl⟩

theorem Alike.build (h : indexes.Alike others) (key : String) (holders : List (PropertyValue × α)) :
    SameResult Alike (indexes.build key holders) (others.build key holders) := by
  rw [IndexCatalog.build, IndexCatalog.build, create, create, h.has key]
  cases others.has key with
  | true => exact ⟨h, rfl⟩
  | false =>
      obtain ⟨left, right, result, filled, filled', same⟩ :=
        ((h.insert key PropertyIndex.alike_empty).fill key holders).exists_eq
      simp only [Bool.false_eq_true, if_false, filled, filled']
      cases result with
      | ok => exact ⟨same, rfl⟩
      | error e => exact ⟨same.erase key, rfl⟩

end Changes

end IndexCatalog

end PropertyGraph
