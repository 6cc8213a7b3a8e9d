import PropertyGraph.Proofs.Store.Integrity
import Mathlib.Data.List.Nodup

namespace PropertyGraph

namespace Store

variable {s : Store}

theorem Sound.mem_liveNodes (h : s.Sound) {node : Node} :
    node ∈ s.liveNodes ↔ s.node? node.id = some node := by
  simp only [liveNodes, List.mem_filterMap]
  constructor
  · rintro ⟨slot, mem, record⟩
    obtain ⟨i, hi⟩ := List.mem_iff_getElem?.mp mem
    have there : s.node? ⟨i⟩ = some node := by
      rw [node?, ← Array.getElem?_toList, hi]
      exact record
    rw [h.nodeId there]
    exact there
  · intro there
    obtain ⟨slot, at_id, record⟩ := Option.bind_eq_some_iff.mp there
    exact ⟨slot, List.mem_iff_getElem?.mpr ⟨node.id.index, by simpa using at_id⟩, record⟩

theorem Sound.mem_liveEdges (h : s.Sound) {edge : Edge} :
    edge ∈ s.liveEdges ↔ s.edge? edge.id = some edge := by
  simp only [liveEdges, List.mem_filterMap, id_eq, exists_eq_right]
  constructor
  · intro mem
    obtain ⟨i, hi⟩ := List.mem_iff_getElem?.mp mem
    have there : s.edge? ⟨i⟩ = some edge := by
      rw [edge?, ← Array.getElem?_toList, hi]
      rfl
    rw [h.edgeId there]
    exact there
  · intro there
    refine List.mem_iff_getElem?.mpr ⟨edge.id.index, ?_⟩
    rw [Array.getElem?_toList]
    cases slot : s.edges[edge.id.index]? with
    | none => simp [edge?, slot] at there
    | some record => simpa [edge?, slot] using there

theorem filterMap_eq_range {α β : Type} (f : α → Option β) (l : List α) :
    l.filterMap f = (List.range l.length).filterMap fun i => l[i]?.bind f := by
  have slots : l.map some = (List.range l.length).map fun i => l[i]? := by
    refine List.ext_getElem (by simp) fun i hi _ => ?_
    have bound : i < l.length := by simpa using hi
    simp [bound]
  calc l.filterMap f
      = (l.map some).filterMap fun slot => slot.bind f := by simp [List.filterMap_map]
    _ = _ := by rw [slots, List.filterMap_map]; rfl

theorem Sound.mem_nodeIds (h : s.Sound) {id : NodeId} :
    id ∈ s.nodeIds ↔ ∃ node, s.node? id = some node := by
  rw [nodeIds, List.mem_map]
  constructor
  · rintro ⟨node, mem, rfl⟩
    exact ⟨node, h.mem_liveNodes.mp mem⟩
  · rintro ⟨node, found⟩
    have same : node.id = id := h.nodeId found
    exact ⟨node, h.mem_liveNodes.mpr (same ▸ found), same⟩

theorem Sound.mem_edgeIds (h : s.Sound) {id : EdgeId} :
    id ∈ s.edgeIds ↔ ∃ edge, s.edge? id = some edge := by
  rw [edgeIds, List.mem_map]
  constructor
  · rintro ⟨edge, mem, rfl⟩
    exact ⟨edge, h.mem_liveEdges.mp mem⟩
  · rintro ⟨edge, found⟩
    have same : edge.id = id := h.edgeId found
    exact ⟨edge, h.mem_liveEdges.mpr (same ▸ found), same⟩

theorem Sound.nodup_nodeIds (h : s.Sound) : s.nodeIds.Nodup := by
  rw [nodeIds, liveNodes, filterMap_eq_range, List.map_filterMap]
  refine List.nodup_range.filterMap fun i j id at_i at_j => ?_
  obtain ⟨a, found_a, id_a⟩ := Option.map_eq_some_iff.mp at_i
  obtain ⟨b, found_b, id_b⟩ := Option.map_eq_some_iff.mp at_j
  have slot_a : s.node? ⟨i⟩ = some a := by simpa [node?] using found_a
  have slot_b : s.node? ⟨j⟩ = some b := by simpa [node?] using found_b
  have handle_a := h.nodeId slot_a
  have handle_b := h.nodeId slot_b
  rw [id_a] at handle_a
  rw [id_b, handle_a] at handle_b
  exact congrArg NodeId.index handle_b

theorem Sound.nodup_edgeIds (h : s.Sound) : s.edgeIds.Nodup := by
  rw [edgeIds, liveEdges, filterMap_eq_range, List.map_filterMap]
  refine List.nodup_range.filterMap fun i j id at_i at_j => ?_
  obtain ⟨a, found_a, id_a⟩ := Option.map_eq_some_iff.mp at_i
  obtain ⟨b, found_b, id_b⟩ := Option.map_eq_some_iff.mp at_j
  have slot_a : s.edge? ⟨i⟩ = some a := by
    rw [edge?, ← Array.getElem?_toList]
    exact found_a
  have slot_b : s.edge? ⟨j⟩ = some b := by
    rw [edge?, ← Array.getElem?_toList]
    exact found_b
  have handle_a := h.edgeId slot_a
  have handle_b := h.edgeId slot_b
  rw [id_a] at handle_a
  rw [id_b, handle_a] at handle_b
  exact congrArg EdgeId.index handle_b

end Store

end PropertyGraph
