import PropertyGraph.Proofs.Match.Contexts

namespace PropertyGraph

/-- The element stands for the slot, whatever its name and whatever is beside it. -/
def Element.Admits (g : Graph) : Element → Slot → Prop
  | .node pattern, .node id => g.NodePasses pattern.filter id
  | .edge pattern, .edges ids left right => pattern.Joins g.store left ids right
  | _, _ => False

def Slot.Meets : Slot → Slot → Prop
  | .node id, .edges _ left _ => left = id
  | .edges _ _ right, .node id => right = id
  | _, _ => False

/-- A slot meets the one beside it, which is on its left when `forward` says so. -/
def Slot.Beside (slot beside : Slot) (forward : Bool) : Prop :=
  if forward then beside.Meets slot else slot.Meets beside

section SingleHop

theorem HopRange.contains_of_isSingleHop {range : HopRange} (single : range.isSingleHop = true)
    {n : Nat} : range.contains n = true ↔ n = 1 := by
  obtain ⟨least, most⟩ := Bool.and_eq_true_iff.mp single
  simp only [contains, beq_iff_eq.mp least, beq_iff_eq.mp most, Option.all_some,
    Bool.and_eq_true, decide_eq_true_eq]
  omega

theorem EdgePattern.joins_of_isSingleHop {edge : EdgePattern}
    (single : edge.length.isSingleHop = true) {s : Store} {left right : NodeId}
    {ids : List EdgeId} : edge.Joins s left ids right ↔
      ∃ id, ids = [id] ∧ s.Leads edge.direction edge.filter left id right := by
  rw [Joins, Store.Joins, HopRange.contains_of_isSingleHop single]
  constructor
  · rintro ⟨one, -, nodes, -, walk⟩
    obtain ⟨id, rfl⟩ := List.length_eq_one_iff.mp one
    cases walk with
    | step leads rest =>
        cases rest
        exact ⟨id, rfl, leads⟩
  · rintro ⟨id, rfl, leads⟩
    exact ⟨rfl, List.nodup_singleton _, [left], List.nodup_singleton _, .step leads (.stay right)⟩

end SingleHop

section Orientation

theorem mem_orientations {edge : Edge} {direction : Direction} {left right : NodeId} :
    (left, right) ∈ orientations edge.source edge.target direction ↔
      edge.Crosses direction left right := by
  cases direction with
  | outgoing => simp [orientations, Edge.Crosses, eq_comm]
  | incoming => simp [orientations, Edge.Crosses, eq_comm]
  | both =>
      by_cases loop : edge.source = edge.target
      · simp [orientations, Edge.Crosses, loop, eq_comm]
      · simp [orientations, Edge.Crosses, loop, eq_comm]

theorem nodup_orientations (source target : NodeId) (direction : Direction) :
    (orientations source target direction).Nodup := by
  cases direction with
  | outgoing => exact List.nodup_singleton _
  | incoming => exact List.nodup_singleton _
  | both =>
      by_cases loop : source = target
      · simp [orientations, loop]
      · simp [orientations, loop]

end Orientation

namespace Operator

variable {g : Graph}

theorem mem_orientedSlots {edge : EdgePattern} {id : EdgeId} {slot : Slot} :
    slot ∈ orientedSlots g edge id ↔ ∃ record left right, g.edge? id = some record ∧
      record.Crosses edge.direction left right ∧ slot = .edges [id] left right := by
  unfold orientedSlots
  cases found : g.edge? id with
  | none => simp
  | some record =>
      simp only [List.mem_map]
      constructor
      · rintro ⟨⟨left, right⟩, mem, rfl⟩
        exact ⟨record, left, right, rfl, mem_orientations.mp mem, rfl⟩
      · rintro ⟨other, left, right, same, crosses, rfl⟩
        cases same
        exact ⟨(left, right), mem_orientations.mpr crosses, rfl⟩

theorem nodup_orientedSlots (edge : EdgePattern) (id : EdgeId) :
    (orientedSlots g edge id).Nodup := by
  unfold orientedSlots
  split
  · exact .nil
  · refine (nodup_orientations _ _ _).map fun a b eq => ?_
    obtain ⟨-, left, right⟩ := Slot.edges.inj eq
    exact Prod.ext left right

theorem mem_orientedSlots_iff {edge : EdgePattern} (single : edge.length.isSingleHop = true)
    {id : EdgeId} (passes : g.EdgePasses edge.filter id) {slot : Slot} :
    slot ∈ orientedSlots g edge id ↔
      (Element.edge edge).Admits g slot ∧ slot.value = .edges [id] := by
  obtain ⟨record, found, admits⟩ := passes
  rw [mem_orientedSlots]
  constructor
  · rintro ⟨other, left, right, found', crosses, rfl⟩
    refine ⟨(EdgePattern.joins_of_isSingleHop single).mpr ⟨id, rfl, other, found', ?_, crosses⟩, rfl⟩
    rw [found] at found'
    cases found'
    exact admits
  · rintro ⟨joins, value⟩
    cases slot with
    | node id => cases value
    | edges ids left right =>
        cases value
        obtain ⟨other, same, leads⟩ := (EdgePattern.joins_of_isSingleHop single).mp joins
        cases same
        obtain ⟨record, found, -, crosses⟩ := leads
        exact ⟨record, left, right, found, crosses, rfl⟩

end Operator

end PropertyGraph
