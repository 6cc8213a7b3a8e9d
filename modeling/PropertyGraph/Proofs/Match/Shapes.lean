import PropertyGraph.Proofs.Match.Layout

namespace PropertyGraph

def slotsFrom (left : NodeId) : List BoundValue → List Slot
  | .edges ids :: .node right :: rest => .edges ids left right :: .node right :: slotsFrom right rest
  | _ => []

def slotsOf : List BoundValue → List Slot
  | .node id :: rest => .node id :: slotsFrom id rest
  | _ => []

namespace PathPattern

variable {g : Graph}

theorem continues_of_laid {segments : List Segment} {left : NodeId} {slots : List Slot}
    (admits : List.Forall₂ (Element.Admits g)
      (segments.flatMap fun segment => [.edge segment.edge, .node segment.node]) slots)
    (meets : (Slot.node left :: slots).IsChain Slot.Meets) :
    Continues g left segments (slots.map Slot.value) ∧
      slots = slotsFrom left (slots.map Slot.value) := by
  induction segments generalizing left slots with
  | nil =>
      cases admits
      exact ⟨trivial, rfl⟩
  | cons segment segments ih =>
      rw [List.flatMap_cons] at admits
      rcases admits with _ | ⟨admits_edge, _ | ⟨admits_node, admits⟩⟩
      rename_i edge_slot node_slot rest
      obtain ⟨first, after⟩ := List.isChain_cons_cons.mp meets
      obtain ⟨second, later⟩ := List.isChain_cons_cons.mp after
      cases edge_slot with
      | node id => exact absurd first not_false
      | edges ids l r =>
          cases node_slot with
          | edges ids l r => exact absurd second not_false
          | node id =>
              cases first
              cases second
              obtain ⟨continues, same⟩ := ih admits later
              refine ⟨⟨admits_edge, admits_node, continues⟩, ?_⟩
              simpa [slotsFrom, Slot.value] using same

theorem fits_of_laid {p : PathPattern} {slots : List Slot}
    (admits : List.Forall₂ (Element.Admits g) p.elements slots)
    (meets : slots.IsChain Slot.Meets) :
    p.Fits g (slots.map Slot.value) ∧ slots = slotsOf (slots.map Slot.value) := by
  unfold elements at admits
  rcases admits with _ | ⟨admits_start, admits⟩
  rename_i slot rest
  cases slot with
  | edges ids left right => exact absurd admits_start not_false
  | node id =>
      obtain ⟨continues, same⟩ := continues_of_laid admits meets
      refine ⟨⟨admits_start, continues⟩, ?_⟩
      simpa [slotsOf, Slot.value] using same

theorem laid_of_continues {segments : List Segment} {left : NodeId} {path : List BoundValue}
    (continues : Continues g left segments path) :
    List.Forall₂ (Element.Admits g)
        (segments.flatMap fun segment => [.edge segment.edge, .node segment.node])
        (slotsFrom left path) ∧
      (Slot.node left :: slotsFrom left path).IsChain Slot.Meets ∧
      (slotsFrom left path).map Slot.value = path := by
  induction segments generalizing left path with
  | nil =>
      cases path with
      | nil => exact ⟨.nil, .singleton _, rfl⟩
      | cons => exact absurd continues not_false
  | cons segment segments ih =>
      match path, continues with
      | .edges ids :: .node right :: rest, ⟨joins, passes, continues⟩ =>
          obtain ⟨admits, meets, values⟩ := ih continues
          refine ⟨.cons joins (.cons passes admits), ?_, ?_⟩
          · exact List.isChain_cons_cons.mpr ⟨rfl, List.isChain_cons_cons.mpr ⟨rfl, meets⟩⟩
          · simp [slotsFrom, Slot.value, values]

theorem laid_of_fits {p : PathPattern} {path : List BoundValue} (fits : p.Fits g path) :
    List.Forall₂ (Element.Admits g) p.elements (slotsOf path) ∧
      (slotsOf path).IsChain Slot.Meets ∧ (slotsOf path).map Slot.value = path := by
  match path, fits with
  | .node id :: rest, ⟨passes, continues⟩ =>
      obtain ⟨admits, meets, values⟩ := laid_of_continues continues
      exact ⟨.cons passes admits, meets, by simp [slotsOf, Slot.value, values]⟩

end PathPattern

end PropertyGraph
