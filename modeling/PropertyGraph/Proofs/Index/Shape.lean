import PropertyGraph.Proofs.Index.PropertyIndex

/-!
Shapes as a partial order. A shape is below another when it only says less about the items of lists;
two shapes that have a shape above both have a least one, and merging them gives it.
-/

namespace PropertyGraph

namespace Shape

/-- What the first shape says of a value, the second says too. -/
inductive Below : Shape → Shape → Prop
  | refl (shape : Shape) : Below shape shape
  | emptyList (item : Shape) : Below .emptyList (.listOf item)
  | listOf {item other : Shape} (below : Below item other) : Below (.listOf item) (.listOf other)

def isComplete : Shape → Bool
  | .emptyList => false
  | .listOf item => item.isComplete
  | _ => true

variable {a b c top : Shape}

section Order

theorem Below.trans (first : a.Below b) (second : b.Below c) : a.Below c := by
  induction first generalizing c with
  | refl shape => exact second
  | emptyList item =>
      cases second with
      | refl => exact .emptyList item
      | listOf below => exact .emptyList _
  | listOf below ih =>
      cases second with
      | refl => exact .listOf below
      | listOf above => exact .listOf (ih above)

theorem Below.antisymm (first : a.Below b) (second : b.Below a) : a = b := by
  induction first with
  | refl shape => rfl
  | emptyList item => cases second
  | listOf below ih =>
      cases second with
      | refl => rfl
      | listOf above => exact congrArg Shape.listOf (ih above)

theorem Below.eq_of_isComplete (below : a.Below b) (complete : a.isComplete = true) : a = b := by
  induction below with
  | refl shape => rfl
  | emptyList item => cases complete
  | listOf below ih => exact congrArg Shape.listOf (ih complete)

end Order

section Merge

theorem merge?_listOf_eq_ok {item other : Shape} : (listOf item).merge? (.listOf other) = .ok c ↔
    ∃ inner, item.merge? other = .ok inner ∧ .listOf inner = c := by
  rw [merge?]
  cases item.merge? other <;> simp [Except.map]

theorem merge?_of_below (below : b.Below a) : a.merge? b = .ok a := by
  induction below with
  | refl shape => exact merge?_self shape
  | emptyList item => rfl
  | listOf below ih => simp [merge?, ih, Except.map]

theorem merge?_of_above (above : a.Below b) : a.merge? b = .ok b := by
  induction above with
  | refl shape => exact merge?_self shape
  | emptyList item => rfl
  | listOf below ih => simp [merge?, ih, Except.map]

theorem below_of_merge? (merged : a.merge? b = .ok c) : a.Below c ∧ b.Below c := by
  induction a generalizing b c with
  | listOf item ih =>
      cases b with
      | listOf other =>
          obtain ⟨inner, joined, rfl⟩ := merge?_listOf_eq_ok.mp merged
          obtain ⟨left, right⟩ := ih joined
          exact ⟨.listOf left, .listOf right⟩
      | emptyList =>
          cases merged
          exact ⟨.refl _, .emptyList item⟩
      | _ => simp [merge?] at merged
  | emptyList =>
      cases b with
      | listOf other =>
          cases merged
          exact ⟨.emptyList other, .refl _⟩
      | emptyList =>
          cases merged
          exact ⟨.refl _, .refl _⟩
      | _ => simp [merge?] at merged
  | _ =>
      cases b <;> simp only [merge?, reduceCtorEq, ↓reduceIte, Except.ok.injEq] at merged
      subst merged
      exact ⟨.refl _, .refl _⟩

theorem exists_merge? (first : a.Below top) (second : b.Below top) :
    ∃ c, a.merge? b = .ok c ∧ c.Below top := by
  induction first generalizing b with
  | refl shape => exact ⟨shape, merge?_of_below second, .refl shape⟩
  | emptyList item =>
      cases second with
      | refl => exact ⟨_, rfl, .refl _⟩
      | emptyList => exact ⟨_, rfl, .emptyList item⟩
      | listOf below => exact ⟨_, rfl, .listOf below⟩
  | @listOf item other below ih =>
      cases second with
      | refl => exact ⟨_, merge?_of_above (.listOf below), .refl _⟩
      | emptyList => exact ⟨_, rfl, .listOf below⟩
      | listOf below' =>
          obtain ⟨inner, joined, above⟩ := ih below'
          exact ⟨.listOf inner, merge?_listOf_eq_ok.mpr ⟨inner, joined, rfl⟩, .listOf above⟩

theorem merge?_eq_self_iff : a.merge? b = .ok a ↔ b.Below a :=
  ⟨fun merged => (below_of_merge? merged).2, merge?_of_below⟩

end Merge

section Telling

theorem exists_apart (shape : Shape) : ∃ other : Shape, ∀ merged, shape.merge? other ≠ .ok merged := by
  cases shape with
  | boolean => exact ⟨.integer, by simp [merge?]⟩
  | _ => exact ⟨.boolean, by simp [merge?]⟩

theorem Below.exists_told (below : a.Below b) (apart : a ≠ b) :
    ∃ other, (∃ merged, a.merge? other = .ok merged) ∧ ∀ merged, b.merge? other ≠ .ok merged := by
  induction below with
  | refl shape => exact absurd rfl apart
  | emptyList item =>
      obtain ⟨other, refused⟩ := exists_apart item
      refine ⟨.listOf other, ⟨_, rfl⟩, fun merged eq => ?_⟩
      obtain ⟨inner, joined, -⟩ := merge?_listOf_eq_ok.mp eq
      exact refused inner joined
  | @listOf item item' below ih =>
      obtain ⟨other, ⟨inner, joined⟩, refused⟩ := ih fun same => apart (congrArg Shape.listOf same)
      refine ⟨.listOf other, ⟨_, merge?_listOf_eq_ok.mpr ⟨inner, joined, rfl⟩⟩, fun merged eq => ?_⟩
      obtain ⟨inner', joined', -⟩ := merge?_listOf_eq_ok.mp eq
      exact refused inner' joined'

theorem exists_value (shape : Shape) : ∃ value, of? value = .ok shape := by
  induction shape with
  | boolean => exact ⟨.boolean true, rfl⟩
  | integer => exact ⟨.integer 0, rfl⟩
  | float => exact ⟨.float ⟨0⟩, rfl⟩
  | string => exact ⟨.string "", rfl⟩
  | emptyList => exact ⟨.list [], rfl⟩
  | listOf item ih =>
      obtain ⟨value, shaped⟩ := ih
      exact ⟨.list [value], by simp [of?, ofItems?, shaped, merge?]⟩

end Telling

end Shape

end PropertyGraph
