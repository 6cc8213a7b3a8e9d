import PropertyGraph.Filter
import PropertyGraph.Value.Order
import Mathlib.Logic.Basic

namespace PropertyGraph

namespace PropertyValue

mutual

theorem order_of_compare? : ∀ {a b : PropertyValue} {o : Ordering},
    a.compare? b = .ok o → a.order b = o
  | .list as, .list bs, o, h => orderItems_of_compareItems? (o := o) (by simpa [compare?] using h)
  | .boolean a, b, o, h => by cases b <;> simp_all [compare?, order]
  | .integer a, b, o, h => by cases b <;> simp_all [compare?, order]
  | .float a, b, o, h => by cases b <;> simp_all [compare?, order]
  | .string a, b, o, h => by cases b <;> simp_all [compare?, order]
  | .list as, .boolean b, o, h => by simp [compare?] at h
  | .list as, .integer b, o, h => by simp [compare?] at h
  | .list as, .float b, o, h => by simp [compare?] at h
  | .list as, .string b, o, h => by simp [compare?] at h

theorem orderItems_of_compareItems? : ∀ {as bs : List PropertyValue} {o : Ordering},
    compareItems? as bs = .ok o → orderItems as bs = o
  | [], [], o, h => by simpa [compareItems?, orderItems] using h
  | [], b :: bs, o, h => by simpa [compareItems?, orderItems] using h
  | a :: as, [], o, h => by simpa [compareItems?, orderItems] using h
  | a :: as, b :: bs, o, h => by
      rw [compareItems?] at h
      split at h
      · rename_i equal
        rw [orderItems, order_of_compare? equal, orderItems_of_compareItems? h]
        rfl
      · rename_i decided
        rw [orderItems, order_of_compare? h]
        cases o with
        | lt => rfl
        | eq => exact absurd h decided
        | gt => rfl

end

mutual

theorem compare?_self : ∀ a : PropertyValue, a.compare? a = .ok .eq
  | .boolean _ | .integer _ | .string _ => by simp [compare?]
  | .float _ => by simp [compare?, Std.ReflCmp.compare_self]
  | .list items => by simpa [compare?] using compareItems?_self items

theorem compareItems?_self : ∀ items : List PropertyValue, compareItems? items items = .ok .eq
  | [] => rfl
  | a :: as => by simp [compareItems?, compare?_self a, compareItems?_self as]

end

theorem same?_eq_true_iff {a b : PropertyValue} : a.same? b = .ok true ↔ a = b := by
  constructor
  · intro h
    cases hc : a.compare? b with
    | error e => simp [same?, hc, Except.map] at h
    | ok o =>
        have equal : o = .eq := by simpa [same?, hc, Except.map] using h
        exact eq_of_order (order_of_compare? (equal ▸ hc))
  · rintro rfl
    simp [same?, compare?_self, Except.map]

end PropertyValue

theorem Properties.satisfies?_eq_true_iff {props : Properties}
    {constraints : List (String × PropertyValue)} :
    props.satisfies? constraints = .ok true ↔ ∀ pair ∈ constraints, props[pair.1]? = some pair.2 := by
  induction constraints with
  | nil => simp [satisfies?]
  | cons pair rest ih =>
      obtain ⟨key, expected⟩ := pair
      rw [satisfies?, List.forall_mem_cons]
      cases found : props[key]? with
      | none => simp
      | some actual =>
          simp only [Option.some.injEq]
          cases same : actual.same? expected with
          | error e =>
              have apart : actual ≠ expected := fun eq => by
                simp [PropertyValue.same?_eq_true_iff.mpr eq] at same
              simp [apart]
          | ok answer =>
              cases answer with
              | true => simp [PropertyValue.same?_eq_true_iff.mp same, ih]
              | false =>
                  have apart : actual ≠ expected := fun eq => by
                    simp [PropertyValue.same?_eq_true_iff.mpr eq] at same
                  simp [apart]

def NodeFilter.Admits (filter : NodeFilter) (node : Node) : Prop :=
  (∀ label ∈ filter.labels, label ∈ node.labels) ∧
    ∀ pair ∈ filter.properties, node.properties[pair.1]? = some pair.2

def EdgeFilter.Admits (filter : EdgeFilter) (edge : Edge) : Prop :=
  (filter.types ≠ [] → edge.type ∈ filter.types) ∧
    ∀ pair ∈ filter.properties, edge.properties[pair.1]? = some pair.2

theorem NodeFilter.accepts?_eq_true_iff {filter : NodeFilter} {node : Node} :
    filter.accepts? node = .ok true ↔ filter.Admits node := by
  unfold accepts? Admits
  by_cases all : node.hasAllLabels filter.labels
  · rw [if_pos all, Properties.satisfies?_eq_true_iff]
    have labels : ∀ label ∈ filter.labels, label ∈ node.labels := by
      simpa [Node.hasAllLabels, Node.hasLabel] using all
    exact ⟨fun h => ⟨labels, h⟩, fun h => h.2⟩
  · rw [if_neg all]
    have missing : ¬∀ label ∈ filter.labels, label ∈ node.labels := by
      simpa [Node.hasAllLabels, Node.hasLabel] using all
    simp [missing]

theorem EdgeFilter.allowsType_iff {filter : EdgeFilter} {type : EdgeType} :
    filter.allowsType type = true ↔ (filter.types ≠ [] → type ∈ filter.types) := by
  simp [allowsType, or_iff_not_imp_left]

theorem EdgeFilter.accepts?_eq_true_iff {filter : EdgeFilter} {edge : Edge} :
    filter.accepts? edge = .ok true ↔ filter.Admits edge := by
  unfold accepts? Admits
  by_cases allowed : filter.allowsType edge.type
  · rw [if_pos allowed, Properties.satisfies?_eq_true_iff]
    exact ⟨fun h => ⟨allowsType_iff.mp allowed, h⟩, fun h => h.2⟩
  · rw [if_neg allowed]
    have excluded := mt allowsType_iff.mpr allowed
    simp [excluded]

end PropertyGraph
