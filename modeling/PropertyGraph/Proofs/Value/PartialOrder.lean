import PropertyGraph.Proofs.Value.Comparison

/-!
Comparison as a partial order. The first pair of items that differs decides, and looked at from the
other side it is the same pair; so a comparison turned round gives the answer turned round, also
when it fails. Along a chain of increasing values it never fails, whatever stands behind the pairs
that decided. Where it fails, the kinds that met decide the total order.
-/

namespace PropertyGraph

def Incomparable.swap (e : Incomparable) : Incomparable := ⟨e.right, e.left⟩

namespace PropertyValue

def turned : Except Incomparable Ordering → Except Incomparable Ordering
  | .ok o => .ok o.swap
  | .error e => .error e.swap

theorem compare?_of_kind_ne {a b : PropertyValue} (h : a.kind ≠ b.kind) :
    a.compare? b = .error ⟨a.kind, b.kind⟩ := by
  cases a <;> cases b <;> first | rfl | exact absurd rfl h

theorem compare?_of_kind_eq {a b : PropertyValue} (scalar : a.kind ≠ .list)
    (h : a.kind = b.kind) : a.compare? b = .ok (a.order b) := by
  cases a <;> cases b <;> first | rfl | exact absurd rfl scalar | cases h

theorem kind_eq_of_compare? {a b : PropertyValue} {o : Ordering} (h : a.compare? b = .ok o) :
    a.kind = b.kind := by
  by_cases same : a.kind = b.kind
  · exact same
  · rw [compare?_of_kind_ne same] at h
    cases h

section Turning

theorem compare?_turned_of_scalar {a : PropertyValue} (scalar : a.kind ≠ .list)
    (b : PropertyValue) : b.compare? a = turned (a.compare? b) := by
  by_cases same : a.kind = b.kind
  · rw [compare?_of_kind_eq (same ▸ scalar) same.symm, compare?_of_kind_eq scalar same,
      order_swap b a]
    rfl
  · rw [compare?_of_kind_ne (Ne.symm same), compare?_of_kind_ne same]
    rfl

mutual

theorem compare?_turned : ∀ a b : PropertyValue, b.compare? a = turned (a.compare? b)
  | .list as, .list bs => compareItems?_turned as bs
  | .list _, .boolean _ | .list _, .integer _ | .list _, .float _ | .list _, .string _ => rfl
  | .boolean _, b | .integer _, b | .float _, b | .string _, b =>
      compare?_turned_of_scalar (by simp [kind]) b

theorem compareItems?_turned : ∀ as bs : List PropertyValue,
    compareItems? bs as = turned (compareItems? as bs)
  | [], [] | [], _ :: _ | _ :: _, [] => rfl
  | a :: as, b :: bs => by
      rw [compareItems?, compareItems?, compare?_turned a b]
      cases a.compare? b with
      | error e => rfl
      | ok o =>
          cases o with
          | lt => rfl
          | eq => exact compareItems?_turned as bs
          | gt => rfl

end

end Turning

section Chains

theorem compareItems?_cons_eq_lt {a b : PropertyValue} {as bs : List PropertyValue} :
    compareItems? (a :: as) (b :: bs) = .ok .lt ↔
      a.compare? b = .ok .lt ∨ a = b ∧ compareItems? as bs = .ok .lt := by
  rw [compareItems?]
  cases compared : a.compare? b with
  | error e =>
      have apart : a ≠ b := fun same => by
        rw [same, compare?_self] at compared
        cases compared
      simp [apart]
  | ok o =>
      have decides : o = .eq ↔ a = b :=
        ⟨fun equal => eq_of_order (order_of_compare? (equal ▸ compared)), fun same => by
          rw [same, compare?_self] at compared
          exact (Except.ok.inj compared).symm⟩
      rw [← decides]
      cases o <;> simp

theorem compare?_lt_trans_of_scalar {a b c : PropertyValue} (scalar : a.kind ≠ .list)
    (hab : a.compare? b = .ok .lt) (hbc : b.compare? c = .ok .lt) : a.compare? c = .ok .lt := by
  have kinds : a.kind = c.kind := (kind_eq_of_compare? hab).trans (kind_eq_of_compare? hbc)
  rw [compare?_of_kind_eq scalar kinds,
    order_lt_trans (order_of_compare? hab) (order_of_compare? hbc)]

mutual

theorem compare?_lt_trans : ∀ {a b c : PropertyValue}, a.compare? b = .ok .lt →
    b.compare? c = .ok .lt → a.compare? c = .ok .lt
  | .list _, .list _, .list _, hab, hbc => compareItems?_lt_trans hab hbc
  | .boolean _, _, _, hab, hbc | .integer _, _, _, hab, hbc | .float _, _, _, hab, hbc
  | .string _, _, _, hab, hbc => compare?_lt_trans_of_scalar (by simp [kind]) hab hbc

theorem compareItems?_lt_trans : ∀ {as bs cs : List PropertyValue},
    compareItems? as bs = .ok .lt → compareItems? bs cs = .ok .lt → compareItems? as cs = .ok .lt
  | [], _, _ :: _, _, _ => rfl
  | [], [], [], hab, _ => hab
  | _ :: _, _ :: _, _ :: _, hab, hbc => by
      rw [compareItems?_cons_eq_lt] at hab hbc ⊢
      rcases hab with hab | ⟨rfl, hab⟩
      · rcases hbc with hbc | ⟨rfl, -⟩
        · exact .inl (compare?_lt_trans hab hbc)
        · exact .inl hab
      · rcases hbc with hbc | ⟨rfl, hbc⟩
        · exact .inl hbc
        · exact .inr ⟨rfl, compareItems?_lt_trans hab hbc⟩

end

end Chains

section Failing

theorem order_of_incomparable_kinds {a b : PropertyValue} {left right : ValueKind}
    (apart : a.kind ≠ b.kind) (failed : a.compare? b = .error ⟨left, right⟩) :
    left ≠ right ∧ a.order b = compare left.rank right.rank := by
  rw [compare?_of_kind_ne apart] at failed
  cases failed
  exact ⟨apart, order_of_kind_ne apart⟩

theorem order_of_incomparable_scalar {a b : PropertyValue} {left right : ValueKind}
    (scalar : a.kind ≠ .list) (failed : a.compare? b = .error ⟨left, right⟩) :
    left ≠ right ∧ a.order b = compare left.rank right.rank := by
  refine order_of_incomparable_kinds (fun same => ?_) failed
  rw [compare?_of_kind_eq scalar same] at failed
  cases failed

mutual

theorem order_of_incomparable : ∀ {a b : PropertyValue} {left right : ValueKind},
    a.compare? b = .error ⟨left, right⟩ → left ≠ right ∧ a.order b = compare left.rank right.rank
  | .list _, .list _, _, _, failed => orderItems_of_incomparable failed
  | .list _, .boolean _, _, _, failed | .list _, .integer _, _, _, failed
  | .list _, .float _, _, _, failed | .list _, .string _, _, _, failed =>
      order_of_incomparable_kinds (by simp [kind]) failed
  | .boolean _, _, _, _, failed | .integer _, _, _, _, failed | .float _, _, _, _, failed
  | .string _, _, _, _, failed => order_of_incomparable_scalar (by simp [kind]) failed

theorem orderItems_of_incomparable : ∀ {as bs : List PropertyValue} {left right : ValueKind},
    compareItems? as bs = .error ⟨left, right⟩ →
      left ≠ right ∧ orderItems as bs = compare left.rank right.rank
  | [], [], _, _, failed | [], _ :: _, _, _, failed | _ :: _, [], _, _, failed => by cases failed
  | a :: as, b :: bs, left, right, failed => by
      rw [compareItems?] at failed
      cases compared : a.compare? b with
      | error e =>
          rw [compared] at failed
          cases failed
          obtain ⟨apart, decided⟩ := order_of_incomparable compared
          refine ⟨apart, ?_⟩
          rw [orderItems, decided]
          cases ranks : compare left.rank right.rank with
          | eq => exact absurd (ValueKind.rank_inj (Nat.compare_eq_eq.mp ranks)) apart
          | lt => rfl
          | gt => rfl
      | ok o =>
          rw [compared] at failed
          cases o with
          | eq =>
              obtain ⟨apart, decided⟩ := orderItems_of_incomparable failed
              rw [orderItems, order_of_compare? compared]
              exact ⟨apart, decided⟩
          | lt => cases failed
          | gt => cases failed

end

end Failing

theorem compare?_partialOrder (a b c : PropertyValue) :
    a.compare? a = .ok .eq ∧
      (∀ o, a.compare? b = .ok o → b.compare? a = .ok o.swap) ∧
      (∀ left right, a.compare? b = .error ⟨left, right⟩ →
        b.compare? a = .error ⟨right, left⟩) ∧
      (a.compare? b = .ok .eq → a = b) ∧
      (a.compare? b = .ok .lt → b.compare? c = .ok .lt → a.compare? c = .ok .lt) := by
  refine ⟨compare?_self a, fun o compared => ?_, fun left right failed => ?_,
    fun equal => eq_of_order (order_of_compare? equal), compare?_lt_trans⟩
  · rw [compare?_turned a b, compared]
    rfl
  · rw [compare?_turned a b, failed]
    rfl

/-- Three nested and mixed lists in a chain; behind the items that decide stand values of three
kinds. -/
def mixedLow : PropertyValue := .list [.list [.integer 1], .string "x"]

def mixedMiddle : PropertyValue := .list [.list [.integer 1, .boolean true], .integer 5]

def mixedHigh : PropertyValue := .list [.list [.integer 2, .string "y"], .float (.ofInt 1)]

def mixedOther : PropertyValue := .list [.list [.integer 1, .string "y"]]

theorem compare?_partialOrder_mixed :
    mixedLow.compare? mixedMiddle = .ok .lt ∧ mixedMiddle.compare? mixedHigh = .ok .lt ∧
      mixedLow.compare? mixedHigh = .ok .lt ∧ mixedMiddle.compare? mixedLow = .ok .gt ∧
      mixedMiddle.compare? mixedOther = .error ⟨.boolean, .string⟩ ∧
      mixedOther.compare? mixedMiddle = .error ⟨.string, .boolean⟩ := by
  have first : mixedLow.compare? mixedMiddle = .ok .lt := rfl
  have second : mixedMiddle.compare? mixedHigh = .ok .lt := rfl
  have failed : mixedMiddle.compare? mixedOther = .error ⟨.boolean, .string⟩ := rfl
  obtain ⟨-, turned, -, -, chain⟩ := compare?_partialOrder mixedLow mixedMiddle mixedHigh
  obtain ⟨-, -, swapped, -⟩ := compare?_partialOrder mixedMiddle mixedOther mixedHigh
  exact ⟨first, second, chain first second, turned .lt first, failed,
    swapped .boolean .string failed⟩

end PropertyValue

end PropertyGraph
