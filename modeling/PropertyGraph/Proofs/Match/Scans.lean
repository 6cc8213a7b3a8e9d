import PropertyGraph.Proofs.Match.Slots

namespace PropertyGraph

section Known

variable {scope : Scope} {name : Option String}

theorem Scope.mem_knownNodes? {ids : List NodeId} (known : scope.knownNodes? name = some ids)
    {id : NodeId} (admitted : ∀ n, name = some n → scope.Admits n (.node id)) : id ∈ ids := by
  cases name with
  | none => cases known
  | some n =>
      have admitted := admitted n rfl
      unfold Admits at admitted
      simp only [knownNodes?] at known
      split at known
      · rename_i other pinned
        rw [pinned] at admitted
        cases admitted
        cases known
        exact List.mem_singleton_self _
      · rename_i unpinned
        split at known
        · rename_i symbol found
          cases known
          cases pinned : scope.pinned.get? n with
          | none =>
              rw [pinned] at admitted
              exact InsertionSet.contains_iff_mem.mp (admitted _ found)
          | some value =>
              rw [pinned] at admitted
              exact absurd (admitted ▸ pinned) (unpinned id)
        · cases known

theorem Scope.nodup_knownNodes? {ids : List NodeId} (known : scope.knownNodes? name = some ids) :
    ids.Nodup := by
  cases name with
  | none => cases known
  | some n =>
      simp only [knownNodes?] at known
      split at known
      · cases known
        exact List.nodup_singleton _
      · split at known
        · cases known
          exact InsertionSet.nodup_toList _
        · cases known

theorem Scope.mem_knownEdges? {ids : List EdgeId} (known : scope.knownEdges? name = some ids)
    {id : EdgeId} (admitted : ∀ n, name = some n → scope.Admits n (.edges [id])) : id ∈ ids := by
  cases name with
  | none => cases known
  | some n =>
      have admitted := admitted n rfl
      unfold Admits at admitted
      simp only [knownEdges?] at known
      split at known
      · rename_i other pinned
        rw [pinned] at admitted
        cases admitted
        cases known
        exact List.mem_singleton_self _
      · rename_i several pinned
        rw [pinned] at admitted
        exact absurd (BoundValue.edges.inj admitted).symm (several id)
      · rename_i unpinned
        split at known
        · rename_i symbol found
          cases known
          cases pinned : scope.pinned.get? n with
          | none =>
              rw [pinned] at admitted
              have member := InsertionSet.contains_iff_mem.mp (admitted _ found)
              exact List.mem_filterMap.mpr ⟨[id], member, rfl⟩
          | some value =>
              rw [pinned] at admitted
              exact absurd (admitted ▸ pinned) (unpinned [id])
        · cases known

theorem Scope.nodup_knownEdges? {ids : List EdgeId} (known : scope.knownEdges? name = some ids) :
    ids.Nodup := by
  cases name with
  | none => cases known
  | some n =>
      simp only [knownEdges?] at known
      split at known
      · cases known
        exact List.nodup_singleton _
      · cases known
        exact .nil
      · split at known
        · cases known
          refine (InsertionSet.nodup_toList _).filterMap fun a b id at_a at_b => ?_
          split at at_a
          · split at at_b
            · cases at_a
              cases at_b
              rfl
            · cases at_b
          · cases at_a
        · cases known

end Known

namespace Operator

variable {g : Graph} {scope : Scope}

theorem scanItems_cases {α : Type} (selection : Selection α) (known : Option (List α))
    (sift : List α → List (Except Incomparable α)) :
    scanItems selection known sift = selection.items ∨
      ∃ ids, known = some ids ∧ scanItems selection known sift = sift ids := by
  unfold scanItems
  cases known with
  | none => exact .inl rfl
  | some ids =>
      dsimp only
      split
      · exact .inr ⟨ids, rfl, rfl⟩
      · exact .inl rfl

theorem scanNodes_sound {node : NodePattern} {slot : Slot}
    (mem : .ok slot ∈ scanNodes g scope node) : (Element.node node).Admits g slot := by
  unfold scanNodes at mem
  cases selected : g.selectNodes? node.filter with
  | error e =>
      rw [selected] at mem
      cases List.mem_singleton.mp mem
  | ok selection =>
      rw [selected] at mem
      obtain ⟨id, found, rfl⟩ := ok_mem_map_map.mp mem
      have found := Findings.ok_mem_ofFound.mp found
      rcases scanItems_cases selection (scope.knownNodes? node.name) (g.siftNodes node.filter) with
        walked | ⟨ids, -, walked⟩ <;> rw [walked] at found
      · exact Graph.passes_of_mem_selectNodes? selected found
      · exact Graph.passes_of_mem_siftNodes found

theorem scanNodes_complete (h : g.Sound) {node : NodePattern} {slot : Slot}
    (clean : (scanNodes g scope node).Clean) (admits : (Element.node node).Admits g slot)
    (admitted : ∀ n, node.name = some n → scope.Admits n slot.value) :
    .ok slot ∈ scanNodes g scope node := by
  cases slot with
  | edges ids left right => exact absurd admits id
  | node id =>
      unfold scanNodes at clean ⊢
      cases selected : g.selectNodes? node.filter with
      | error e =>
          rw [selected] at clean
          exact absurd (List.mem_singleton_self _) (clean _)
      | ok selection =>
          rw [selected] at clean
          refine ok_mem_map_map.mpr ⟨id, Findings.ok_mem_ofFound.mpr ?_, rfl⟩
          have clean := Findings.Clean.of_ofFound (clean_of_map_map clean)
          rcases scanItems_cases selection (scope.knownNodes? node.name) (g.siftNodes node.filter) with
            walked | ⟨ids, known, walked⟩ <;> rw [walked] at clean ⊢
          · exact (h.mem_selectNodes? selected clean).mpr admits
          · exact Graph.mem_siftNodes clean (scope.mem_knownNodes? known admitted) admits

theorem nodup_scanNodes (h : g.Sound) (node : NodePattern) : (scanNodes g scope node).Nodup := by
  unfold scanNodes
  cases selected : g.selectNodes? node.filter with
  | error e => exact List.nodup_singleton _
  | ok selection =>
      refine nodup_map_map (fun a b _ _ eq => Slot.node.inj eq) (Findings.nodup_ofFound ?_)
      rcases scanItems_cases selection (scope.knownNodes? node.name) (g.siftNodes node.filter) with
        walked | ⟨ids, known, walked⟩ <;> rw [walked]
      · exact h.nodup_selectNodes? selected
      · exact nodup_sift (scope.nodup_knownNodes? known)

theorem scanEdges_sound {edge : EdgePattern} (single : edge.length.isSingleHop = true)
    {slot : Slot} (mem : .ok slot ∈ scanEdges g scope edge) :
    (Element.edge edge).Admits g slot := by
  unfold scanEdges at mem
  cases selected : g.selectEdges? edge.filter with
  | error e =>
      rw [selected] at mem
      cases List.mem_singleton.mp mem
  | ok selection =>
      rw [selected] at mem
      obtain ⟨id, found, oriented⟩ := Findings.ok_mem_andThen.mp mem
      have found := Findings.ok_mem_ofFound.mp found
      have passes : g.EdgePasses edge.filter id := by
        rcases scanItems_cases selection (scope.knownEdges? edge.name) (g.siftEdges edge.filter) with
          walked | ⟨ids, -, walked⟩ <;> rw [walked] at found
        · exact Graph.passes_of_mem_selectEdges? selected found
        · exact Graph.passes_of_mem_siftEdges found
      have oriented := Findings.ok_mem_map_ok.mp oriented
      exact ((mem_orientedSlots_iff single passes).mp oriented).1

theorem scanEdges_complete (h : g.Sound) {edge : EdgePattern}
    (single : edge.length.isSingleHop = true) {slot : Slot}
    (clean : (scanEdges g scope edge).Clean) (admits : (Element.edge edge).Admits g slot)
    (admitted : ∀ n, edge.name = some n → scope.Admits n slot.value) :
    .ok slot ∈ scanEdges g scope edge := by
  cases slot with
  | node id => exact absurd admits not_false
  | edges ids left right =>
      obtain ⟨id, rfl, record, found, passes, crosses⟩ :=
        (EdgePattern.joins_of_isSingleHop single).mp admits
      have passes : g.EdgePasses edge.filter id := ⟨record, found, passes⟩
      unfold scanEdges at clean ⊢
      cases selected : g.selectEdges? edge.filter with
      | error e =>
          rw [selected] at clean
          exact absurd (List.mem_singleton_self _) (clean _)
      | ok selection =>
          rw [selected] at clean
          refine Findings.ok_mem_andThen.mpr ⟨id, Findings.ok_mem_ofFound.mpr ?_, ?_⟩
          · have clean := Findings.Clean.of_ofFound clean.of_andThen
            rcases scanItems_cases selection (scope.knownEdges? edge.name)
              (g.siftEdges edge.filter) with
              walked | ⟨ids, known, walked⟩ <;> rw [walked] at clean ⊢
            · exact (h.mem_selectEdges? selected clean).mpr passes
            · exact Graph.mem_siftEdges clean (scope.mem_knownEdges? known admitted) passes
          · exact Findings.ok_mem_map_ok.mpr ((mem_orientedSlots_iff single passes).mpr ⟨admits, rfl⟩)

theorem nodup_scanEdges (h : g.Sound) {edge : EdgePattern}
    (clean : (scanEdges g scope edge).Clean) : (scanEdges g scope edge).Nodup := by
  unfold scanEdges at clean ⊢
  cases selected : g.selectEdges? edge.filter with
  | error e => exact List.nodup_singleton _
  | ok selection =>
      rw [selected] at clean
      refine Findings.nodup_andThen clean.of_andThen (Findings.nodup_ofFound ?_)
        (fun id _ => Findings.nodup_map_ok (nodup_orientedSlots edge id)) ?_
      · rcases scanItems_cases selection (scope.knownEdges? edge.name) (g.siftEdges edge.filter) with
          walked | ⟨ids, known, walked⟩ <;> rw [walked]
        · exact h.nodup_selectEdges? selected
        · exact nodup_sift (scope.nodup_knownEdges? known)
      · rintro a b item - - in_a in_b
        obtain ⟨slot, of_a, rfl⟩ := List.mem_map.mp in_a
        have of_b := Findings.ok_mem_map_ok.mp in_b
        obtain ⟨_, _, _, -, -, eq_a⟩ := mem_orientedSlots.mp of_a
        obtain ⟨_, _, _, -, -, eq_b⟩ := mem_orientedSlots.mp of_b
        rw [eq_a] at eq_b
        exact List.singleton_inj.mp (Slot.edges.inj eq_b).1

end Operator

end PropertyGraph
