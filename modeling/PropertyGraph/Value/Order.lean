import PropertyGraph.Value

namespace PropertyGraph

instance : Std.TransCmp Binary64.totalCompare where
  eq_swap {a b} := Std.OrientedOrd.eq_swap (a := a.orderKey) (b := b.orderKey)
  isLE_trans {a b c} :=
    Std.TransOrd.isLE_trans (a := a.orderKey) (b := b.orderKey) (c := c.orderKey)

instance : Std.LawfulEqCmp Binary64.totalCompare where
  compare_self {a} := Std.ReflOrd.compare_self (a := a.orderKey)
  eq_of_compare h := Binary64.orderKey_inj (Std.LawfulEqOrd.eq_of_compare h)

theorem compare_lt_trans {α : Type} [Ord α] [Std.TransOrd α] {a b c : α}
    (hab : compare a b = .lt) (hbc : compare b c = .lt) : compare a c = .lt :=
  Std.TransCmp.lt_trans hab hbc

theorem ValueKind.rank_inj {k l : ValueKind} (h : k.rank = l.rank) : k = l := by
  cases k <;> cases l <;> first | rfl | cases h

namespace PropertyValue

mutual

theorem order_self : ∀ a : PropertyValue, a.order a = .eq
  | .boolean _ | .integer _ | .string _ => by simp [order]
  | .float _ => by simp [order, Std.ReflCmp.compare_self]
  | .list items => by simpa [order] using orderItems_self items

theorem orderItems_self : ∀ items : List PropertyValue, orderItems items items = .eq
  | [] => rfl
  | a :: as => by simp [orderItems, order_self a, orderItems_self as]

end

mutual

theorem eq_of_order : ∀ {a b : PropertyValue}, a.order b = .eq → a = b
  | .list as, .list bs, h => congrArg list (eq_of_orderItems h)
  | .boolean a, b, h => by cases b <;> simp_all [order, kind, ValueKind.rank]
  | .integer a, b, h => by cases b <;> simp_all [order, kind, ValueKind.rank]
  | .string a, b, h => by cases b <;> simp_all [order, kind, ValueKind.rank]
  | .float a, b, h => by cases b <;> simp_all [order, kind, ValueKind.rank]
  | .list a, .boolean _, h | .list a, .integer _, h | .list a, .float _, h
  | .list a, .string _, h => by simp [order, kind, ValueKind.rank] at h

theorem eq_of_orderItems : ∀ {as bs : List PropertyValue}, orderItems as bs = .eq → as = bs
  | [], [], _ => rfl
  | [], _ :: _, h | _ :: _, [], h => by simp [orderItems] at h
  | a :: as, b :: bs, h => by
      obtain ⟨head, tail⟩ := Ordering.then_eq_eq.mp h
      rw [eq_of_order head, eq_of_orderItems tail]

end

mutual

theorem order_swap : ∀ a b : PropertyValue, a.order b = (b.order a).swap
  | .list as, .list bs => orderItems_swap as bs
  | .boolean _, b => by
      cases b <;> simp [order, kind, ValueKind.rank, ← Std.OrientedOrd.eq_swap]
  | .integer _, b | .string _, b | .float _, b => by
      cases b <;> simp [order, kind, ValueKind.rank, ← Std.OrientedCmp.eq_swap]
  | .list _, .boolean _ | .list _, .integer _ | .list _, .float _
  | .list _, .string _ => rfl

theorem orderItems_swap : ∀ as bs : List PropertyValue,
    orderItems as bs = (orderItems bs as).swap
  | [], [] | [], _ :: _ | _ :: _, [] => rfl
  | a :: as, b :: bs => by
      simp only [orderItems, Ordering.swap_then, ← order_swap a b, ← orderItems_swap as bs]

end

theorem order_of_kind_ne {a b : PropertyValue} (h : a.kind ≠ b.kind) :
    a.order b = compare a.kind.rank b.kind.rank := by
  cases a <;> cases b <;> first | rfl | exact absurd rfl h

theorem rank_le_of_order {a b : PropertyValue} (h : a.order b = .lt) :
    a.kind.rank ≤ b.kind.rank := by
  by_cases hk : a.kind = b.kind
  · exact Nat.le_of_eq (congrArg ValueKind.rank hk)
  · rw [order_of_kind_ne hk, Nat.compare_eq_lt] at h
    exact Nat.le_of_lt h

theorem order_lt_trans_of_kinds {a b c : PropertyValue}
    (same : a.kind = b.kind → b.kind = c.kind → a.order c = .lt)
    (hab : a.order b = .lt) (hbc : b.order c = .lt) : a.order c = .lt := by
  have h₁ := rank_le_of_order hab
  have h₂ := rank_le_of_order hbc
  by_cases hk : a.kind = c.kind
  · rw [hk] at h₁
    have hb := ValueKind.rank_inj (Nat.le_antisymm h₁ h₂)
    exact same (hk.trans hb) hb.symm
  · rw [order_of_kind_ne hk, Nat.compare_eq_lt]
    have ne : a.kind.rank ≠ c.kind.rank := fun h => hk (ValueKind.rank_inj h)
    omega

mutual

theorem order_lt_trans_of_kind : ∀ {a b c : PropertyValue}, a.kind = b.kind → b.kind = c.kind →
    a.order b = .lt → b.order c = .lt → a.order c = .lt
  | .list _, .list _, .list _, _, _, hab, hbc => orderItems_lt_trans hab hbc
  | .boolean x, .boolean y, .boolean z, _, _, hab, hbc =>
      compare_lt_trans (a := x) (b := y) (c := z) hab hbc
  | .integer x, .integer y, .integer z, _, _, hab, hbc =>
      compare_lt_trans (a := x) (b := y) (c := z) hab hbc
  | .float x, .float y, .float z, _, _, hab, hbc =>
      compare_lt_trans (a := x.orderKey) (b := y.orderKey) (c := z.orderKey) hab hbc
  | .string x, .string y, .string z, _, _, hab, hbc =>
      compare_lt_trans (a := x) (b := y) (c := z) hab hbc

theorem orderItems_lt_trans : ∀ {as bs cs : List PropertyValue},
    orderItems as bs = .lt → orderItems bs cs = .lt → orderItems as cs = .lt
  | [], _, _ :: _, _, _ => rfl
  | [], _ :: _, [], _, hbc => by simp [orderItems] at hbc
  | [], [], [], hab, _ => hab
  | _ :: _, [], _, hab, _ => by simp [orderItems] at hab
  | _ :: _, _ :: _, [], _, hbc => by simp [orderItems] at hbc
  | a :: as, b :: bs, c :: cs, hab, hbc => by
      simp only [orderItems, Ordering.then_eq_lt] at hab hbc ⊢
      rcases hab with hab | ⟨hab, hab'⟩
      · rcases hbc with hbc | ⟨hbc, -⟩
        · exact .inl (order_lt_trans_of_kinds
            (fun h₁ h₂ => order_lt_trans_of_kind h₁ h₂ hab hbc) hab hbc)
        · exact .inl (eq_of_order hbc ▸ hab)
      · rw [eq_of_order hab]
        rcases hbc with hbc | ⟨hbc, hbc'⟩
        · exact .inl hbc
        · exact .inr ⟨hbc, orderItems_lt_trans hab' hbc'⟩

end

theorem order_lt_trans {a b c : PropertyValue}
    (hab : a.order b = .lt) (hbc : b.order c = .lt) : a.order c = .lt :=
  order_lt_trans_of_kinds (fun h₁ h₂ => order_lt_trans_of_kind h₁ h₂ hab hbc) hab hbc

instance : Std.TransCmp order where
  eq_swap {a b} := order_swap a b
  isLE_trans {a b c} hab hbc := by
    rcases Ordering.isLE_iff_eq_lt_or_eq_eq.mp hab with hab | hab
    · rcases Ordering.isLE_iff_eq_lt_or_eq_eq.mp hbc with hbc | hbc
      · rw [order_lt_trans hab hbc]
        rfl
      · rw [← eq_of_order hbc, hab]
        rfl
    · rw [eq_of_order hab]
      exact hbc

instance : Std.LawfulEqCmp order where
  compare_self {a} := order_self a
  eq_of_compare := eq_of_order

instance : DecidableEq PropertyValue := fun a b =>
  decidable_of_iff (a.order b = .eq) ⟨eq_of_order, fun h => h ▸ order_self a⟩

end PropertyValue

end PropertyGraph
