import PropertyGraph.Proofs.Match.Slots

namespace PropertyGraph

namespace Operator

variable {g : Graph}

section Steps

theorem beside_node_iff {forward : Bool} {near : NodeId} {slot : Slot} :
    slot.Beside (.node near) forward ↔ ∃ ids far,
      slot = if forward then .edges ids near far else .edges ids far near := by
  cases forward with
  | true =>
      cases slot with
      | node id => simp [Slot.Beside, Slot.Meets]
      | edges ids left right => simp [Slot.Beside, Slot.Meets]
  | false =>
      cases slot with
      | node id => simp [Slot.Beside, Slot.Meets]
      | edges ids left right => simp [Slot.Beside, Slot.Meets]

theorem beside_of_mem_stepSlots {edge : EdgePattern} {forward : Bool} {near : NodeId} {slot : Slot}
    (mem : .ok slot ∈ stepSlots g forward edge near) : slot.Beside (.node near) forward := by
  unfold stepSlots at mem
  split at mem
  · cases List.mem_singleton.mp mem
  · obtain ⟨⟨id, far⟩, -, rfl⟩ := List.mem_map.mp (Findings.ok_mem_map_ok.mp mem)
    exact beside_node_iff.mpr ⟨[id], far, rfl⟩

theorem admits_of_mem_stepSlots (h : g.Sound) {edge : EdgePattern}
    (single : edge.length.isSingleHop = true) {forward : Bool} {near : NodeId} {slot : Slot}
    (mem : .ok slot ∈ stepSlots g forward edge near) : (Element.edge edge).Admits g slot := by
  unfold stepSlots at mem
  split at mem
  · cases List.mem_singleton.mp mem
  · rename_i steps expanded
    obtain ⟨⟨id, far⟩, listed, rfl⟩ := List.mem_map.mp (Findings.ok_mem_map_ok.mp mem)
    have leads := (h.store.mem_expand? expanded).mp listed
    cases forward with
    | true => exact (EdgePattern.joins_of_isSingleHop single).mpr ⟨id, rfl, leads⟩
    | false =>
        have leads := Store.leads_reversed.mp leads
        exact (EdgePattern.joins_of_isSingleHop single).mpr ⟨id, rfl, leads⟩

theorem mem_stepSlots (h : g.Sound) {edge : EdgePattern}
    (single : edge.length.isSingleHop = true) {forward : Bool} {near : NodeId} {slot : Slot}
    (clean : (stepSlots g forward edge near).Clean) :
    .ok slot ∈ stepSlots g forward edge near ↔
      (Element.edge edge).Admits g slot ∧ slot.Beside (.node near) forward := by
  refine ⟨fun mem => ⟨admits_of_mem_stepSlots h single mem, beside_of_mem_stepSlots mem⟩, ?_⟩
  unfold stepSlots at clean ⊢
  cases expanded : g.store.expand? near (edge.direction.fromSide forward) edge.filter with
  | error e =>
      rw [expanded] at clean
      exact absurd (List.mem_singleton_self _) (clean _)
  | ok steps =>
      dsimp only
      rw [Findings.ok_mem_map_ok, List.mem_map, beside_node_iff]
      rintro ⟨admits, ids, far, rfl⟩
      cases forward with
      | true =>
          obtain ⟨id, rfl, leads⟩ := (EdgePattern.joins_of_isSingleHop single).mp admits
          exact ⟨(id, far), (h.store.mem_expand? expanded).mpr leads, rfl⟩
      | false =>
          obtain ⟨id, rfl, leads⟩ := (EdgePattern.joins_of_isSingleHop single).mp admits
          have leads := Store.leads_reversed.mpr leads
          exact ⟨(id, far), (h.store.mem_expand? expanded).mpr leads, rfl⟩

theorem nodup_stepSlots (h : g.Sound) (forward : Bool) (edge : EdgePattern) (near : NodeId) :
    (stepSlots g forward edge near).Nodup := by
  unfold stepSlots
  cases expanded : g.store.expand? near (edge.direction.fromSide forward) edge.filter with
  | error e => exact List.nodup_singleton _
  | ok steps =>
      refine Findings.nodup_map_ok ((h.store.nodup_expand? expanded).of_map.map fun a b eq => ?_)
      cases forward with
      | true =>
          obtain ⟨ids, -, far⟩ := Slot.edges.inj eq
          exact Prod.ext (List.singleton_inj.mp ids) far
      | false =>
          obtain ⟨ids, far, -⟩ := Slot.edges.inj eq
          exact Prod.ext (List.singleton_inj.mp ids) far

theorem beside_of_mem_pathSlots {edge : EdgePattern} {forward : Bool} {start : NodeId} {slot : Slot}
    (mem : .ok slot ∈ pathSlots g forward edge start) : slot.Beside (.node start) forward := by
  obtain ⟨⟨ids, last⟩, -, rfl⟩ := ok_mem_map_map.mp mem
  cases forward with
  | true => exact beside_node_iff.mpr ⟨ids, last, rfl⟩
  | false => exact beside_node_iff.mpr ⟨ids.reverse, last, rfl⟩

theorem admits_of_mem_pathSlots (h : g.Sound) {edge : EdgePattern} {forward : Bool}
    {start : NodeId} {slot : Slot} (mem : .ok slot ∈ pathSlots g forward edge start) :
    (Element.edge edge).Admits g slot := by
  obtain ⟨⟨ids, last⟩, found, rfl⟩ := ok_mem_map_map.mp mem
  cases forward with
  | true => exact Trail.joins_of_mem_finds_ofStart h.store found
  | false => exact Trail.joins_of_mem_finds_ofFinish h.store found

theorem mem_pathSlots (h : g.Sound) {edge : EdgePattern} {forward : Bool} {start : NodeId}
    {slot : Slot} (clean : (pathSlots g forward edge start).Clean) :
    .ok slot ∈ pathSlots g forward edge start ↔
      (Element.edge edge).Admits g slot ∧ slot.Beside (.node start) forward := by
  refine ⟨fun mem => ⟨admits_of_mem_pathSlots h mem, beside_of_mem_pathSlots mem⟩, ?_⟩
  unfold pathSlots at clean ⊢
  rw [ok_mem_map_map, beside_node_iff]
  have clean := clean_of_map_map clean
  cases forward with
  | true =>
      rintro ⟨joins, ids, last, rfl⟩
      exact ⟨(ids, last), (Trail.mem_finds_ofStart h.store clean).mpr joins, rfl⟩
  | false =>
      rintro ⟨joins, ids, last, rfl⟩
      refine ⟨(ids.reverse, last), (Trail.mem_finds_ofFinish h.store clean).mpr ?_, ?_⟩
      · rw [List.reverse_reverse]
        exact joins
      · simp

theorem nodup_pathSlots (h : g.Sound) {forward : Bool} {edge : EdgePattern} {start : NodeId}
    (clean : (pathSlots g forward edge start).Clean) : (pathSlots g forward edge start).Nodup := by
  refine nodup_map_map (fun a b _ _ eq => ?_) (Trail.nodup_finds h.store (clean_of_map_map clean))
  cases forward with
  | true =>
      obtain ⟨ids, -, last⟩ := Slot.edges.inj eq
      exact Prod.ext ids last
  | false =>
      obtain ⟨ids, last, -⟩ := Slot.edges.inj eq
      exact Prod.ext (List.reverse_injective ids) last

theorem of_mem_endpointSlots {node : NodePattern} {id : NodeId} {slot : Slot}
    (mem : .ok slot ∈ endpointSlots g node id) :
    g.NodePasses node.filter id ∧ slot = .node id := by
  obtain ⟨other, found, rfl⟩ := ok_mem_map_map.mp mem
  have found := Findings.ok_mem_ofFound.mp found
  have same : other = id := List.mem_singleton.mp (mem_of_sift found).1
  subst same
  exact ⟨Graph.passes_of_mem_siftNodes found, rfl⟩

theorem mem_endpointSlots {node : NodePattern} {id : NodeId} {slot : Slot}
    (clean : (endpointSlots g node id).Clean) :
    .ok slot ∈ endpointSlots g node id ↔ g.NodePasses node.filter id ∧ slot = .node id := by
  refine ⟨of_mem_endpointSlots, ?_⟩
  rintro ⟨passes, rfl⟩
  have clean := Findings.Clean.of_ofFound (clean_of_map_map clean)
  exact ok_mem_map_map.mpr ⟨id, Findings.ok_mem_ofFound.mpr
    (Graph.mem_siftNodes clean (List.mem_singleton_self _) passes), rfl⟩

theorem nodup_endpointSlots (node : NodePattern) (id : NodeId) :
    (endpointSlots g node id).Nodup :=
  nodup_map_map (fun _ _ _ _ eq => Slot.node.inj eq)
    (Findings.nodup_ofFound (nodup_sift (List.nodup_singleton id)))

end Steps

section Anchors

variable {ctx : Context} {anchor : Nat}

theorem anchorNode?_eq_ok {near : NodeId} :
    ctx.anchorNode? anchor = .ok near ↔ ctx.slot? anchor = some (.node near) := by
  unfold Context.anchorNode?
  split
  · rename_i id bound
    simp [bound]
  · rename_i unbound
    exact iff_of_false (fun eq => by cases eq) (unbound near)

theorem anchorEnds?_eq_ok {left right : NodeId} :
    ctx.anchorEnds? anchor = .ok (left, right) ↔
      ∃ ids, ctx.slot? anchor = some (.edges ids left right) := by
  unfold Context.anchorEnds?
  split
  · rename_i ids l r bound
    simp [bound]
  · rename_i unbound
    exact iff_of_false (fun eq => by cases eq) fun ⟨ids, bound⟩ => unbound ids left right bound

end Anchors

end Operator

end PropertyGraph
