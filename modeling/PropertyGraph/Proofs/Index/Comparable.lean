import PropertyGraph.Proofs.Index.Shape
import PropertyGraph.Proofs.Value.Comparison

/-!
Values of one shape can be compared. A shape above the shapes of two values stands above those of
their items as well, so no comparison of items, at whatever depth, meets two kinds.
-/

namespace PropertyGraph

namespace Shape

theorem Below.kind_eq {a b : Shape} (below : a.Below b) : a.kind = b.kind := by
  cases below <;> rfl

theorem Below.exists_listOf {item top : Shape} (below : (Shape.listOf item).Below top) :
    ∃ inner, top = .listOf inner ∧ item.Below inner := by
  cases below with
  | refl => exact ⟨item, rfl, .refl item⟩
  | listOf below => exact ⟨_, rfl, below⟩

theorem below_of_ofItems? {seen shape : Shape} {items : List PropertyValue}
    (shaped : ofItems? seen items = .ok shape) : seen.Below shape ∧
      ∀ item ∈ items, ∃ inner, of? item = .ok inner ∧ (listOf inner).Below shape := by
  induction items generalizing seen with
  | nil =>
      cases shaped
      exact ⟨.refl _, by simp⟩
  | cons item rest ih =>
      rw [ofItems?] at shaped
      split at shaped
      · cases shaped
      · rename_i inner item_shaped
        split at shaped
        · cases shaped
        · rename_i merged joined
          obtain ⟨above, each⟩ := ih shaped
          obtain ⟨left, right⟩ := below_of_merge? joined
          exact ⟨left.trans above,
            List.forall_mem_cons.mpr ⟨⟨inner, item_shaped, right.trans above⟩, each⟩⟩

theorem kind_of? {value : PropertyValue} {shape : Shape} (shaped : of? value = .ok shape) :
    shape.kind = value.kind := by
  cases value with
  | list items => exact (below_of_ofItems? shaped).1.kind_eq.symm
  | _ =>
      cases shaped
      rfl

end Shape

namespace PropertyValue

def Fits (value : PropertyValue) (top : Shape) : Prop :=
  ∃ shape, Shape.of? value = .ok shape ∧ shape.Below top

theorem Fits.kind_eq {value : PropertyValue} {top : Shape} (fits : value.Fits top) :
    value.kind = top.kind := by
  obtain ⟨shape, shaped, below⟩ := fits
  rw [← Shape.kind_of? shaped, below.kind_eq]

theorem Fits.item {items : List PropertyValue} {top : Shape} (fits : (list items).Fits top) :
    ∀ item ∈ items, ∃ inner, top = .listOf inner ∧ item.Fits inner := by
  intro item mem
  obtain ⟨shape, shaped, below⟩ := fits
  obtain ⟨inner, item_shaped, lower⟩ := (Shape.below_of_ofItems? shaped).2 item mem
  obtain ⟨above, rfl, item_below⟩ := (lower.trans below).exists_listOf
  exact ⟨above, rfl, inner, item_shaped, item_below⟩

mutual

theorem Fits.exists_compare? : ∀ {a b : PropertyValue} {top : Shape}, a.Fits top → b.Fits top →
    ∃ o, a.compare? b = .ok o
  | .list _, .list _, _, left, right => exists_compareItems? left.item right.item
  | .boolean _, b, _, left, right => by
      have kind := right.kind_eq.trans left.kind_eq.symm
      cases b <;> first | exact ⟨_, rfl⟩ | cases kind
  | .integer _, b, _, left, right => by
      have kind := right.kind_eq.trans left.kind_eq.symm
      cases b <;> first | exact ⟨_, rfl⟩ | cases kind
  | .float _, b, _, left, right => by
      have kind := right.kind_eq.trans left.kind_eq.symm
      cases b <;> first | exact ⟨_, rfl⟩ | cases kind
  | .string _, b, _, left, right => by
      have kind := right.kind_eq.trans left.kind_eq.symm
      cases b <;> first | exact ⟨_, rfl⟩ | cases kind
  | .list _, .boolean _, _, left, right | .list _, .integer _, _, left, right
  | .list _, .float _, _, left, right | .list _, .string _, _, left, right => by
      cases right.kind_eq.trans left.kind_eq.symm

theorem exists_compareItems? : ∀ {as bs : List PropertyValue} {top : Shape},
    (∀ a ∈ as, ∃ inner, top = .listOf inner ∧ a.Fits inner) →
    (∀ b ∈ bs, ∃ inner, top = .listOf inner ∧ b.Fits inner) → ∃ o, compareItems? as bs = .ok o
  | [], [], _, _, _ | [], _ :: _, _, _, _ | _ :: _, [], _, _, _ => ⟨_, rfl⟩
  | a :: as, b :: bs, _, left, right => by
      obtain ⟨⟨inner, rfl, fits_a⟩, left⟩ := List.forall_mem_cons.mp left
      obtain ⟨⟨_, same, fits_b⟩, right⟩ := List.forall_mem_cons.mp right
      cases same
      obtain ⟨o, compared⟩ := fits_a.exists_compare? fits_b
      rw [compareItems?, compared]
      cases o with
      | eq => exact exists_compareItems? left right
      | lt => exact ⟨.lt, rfl⟩
      | gt => exact ⟨.gt, rfl⟩

end

theorem compare?_eq_iff {a b : PropertyValue} : a.compare? b = .ok .eq ↔ a = b := by
  constructor
  · exact fun equal => eq_of_order (order_of_compare? equal)
  · rintro rfl
    exact compare?_self a

end PropertyValue

end PropertyGraph
