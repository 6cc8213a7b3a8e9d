import PropertyGraph.Match.Walk
import PropertyGraph.Proofs.Match.Semantics
import PropertyGraph.Proofs.Store.Detachment

namespace PropertyGraph

theorem Edge.crosses_reversed {edge : Edge} {direction : Direction} {near far : NodeId} :
    edge.Crosses direction.reversed near far ↔ edge.Crosses direction far near := by
  cases direction with
  | outgoing => exact and_comm
  | incoming => exact and_comm
  | both => exact or_comm.trans (or_congr and_comm and_comm)

namespace Store

variable {s : Store} {filter : EdgeFilter} {direction : Direction}

theorem leads_reversed {near far : NodeId} {id : EdgeId} :
    s.Leads direction.reversed filter near id far ↔ s.Leads direction filter far id near := by
  unfold Leads
  simp only [Edge.crosses_reversed]

theorem Sound.hasNode_of_leads (h : s.Sound) {near far : NodeId} {id : EdgeId}
    (leads : s.Leads direction filter near id far) : s.hasNode near = true := by
  obtain ⟨edge, found, -, crosses⟩ := leads
  have source := h.sourceLive found
  have target := h.targetLive found
  cases direction with
  | outgoing => exact crosses.1 ▸ source
  | incoming => exact crosses.1 ▸ target
  | both =>
      rcases crosses with ⟨at_source, -⟩ | ⟨at_target, -⟩
      · exact at_source ▸ source
      · exact at_target ▸ target

section Steps

variable {far? : Edge → Option NodeId} {ids : List EdgeId} {steps : List (EdgeId × NodeId)}

theorem steps?_cons_eq_ok {id : EdgeId} {rest : List EdgeId}
    (h : s.steps? filter far? (id :: rest) = .ok steps) :
    (∃ edge far, s.edge? id = some edge ∧ far? edge = some far ∧ filter.Admits edge ∧
      ∃ tail, s.steps? filter far? rest = .ok tail ∧ steps = (id, far) :: tail) ∨
    (¬∃ edge far, s.edge? id = some edge ∧ far? edge = some far ∧ filter.Admits edge) ∧
      s.steps? filter far? rest = .ok steps := by
  rw [steps?] at h
  split at h
  · rename_i skipped
    refine .inr ⟨?_, h⟩
    rintro ⟨edge, far, found, leads, -⟩
    simp [found, leads] at skipped
  · rename_i edge far reached
    obtain ⟨edge', found, mapped⟩ := Option.bind_eq_some_iff.mp reached
    obtain ⟨far', leads, same⟩ := Option.map_eq_some_iff.mp mapped
    cases same
    split at h
    · cases h
    · rename_i accepted
      have admits := EdgeFilter.accepts?_eq_true_iff.mp accepted
      obtain ⟨tail, later, rfl⟩ := exists_of_map_eq_ok h
      exact .inl ⟨edge, far, found, leads, admits, tail, later, rfl⟩
    · rename_i refused
      refine .inr ⟨?_, h⟩
      rintro ⟨other, -, found', -, admits⟩
      rw [found] at found'
      cases found'
      rw [EdgeFilter.accepts?_eq_true_iff.mpr admits] at refused
      cases refused

theorem mem_steps? (h : s.steps? filter far? ids = .ok steps) {id : EdgeId} {far : NodeId} :
    (id, far) ∈ steps ↔
      id ∈ ids ∧ ∃ edge, s.edge? id = some edge ∧ far? edge = some far ∧ filter.Admits edge := by
  induction ids generalizing steps with
  | nil =>
      cases h
      simp
  | cons first rest ih =>
      rcases steps?_cons_eq_ok h with
        ⟨edge, other, found, leads, admits, tail, later, rfl⟩ | ⟨skipped, later⟩
      · rw [List.mem_cons, List.mem_cons, ih later, Prod.mk.injEq]
        constructor
        · rintro (⟨rfl, rfl⟩ | ⟨mem, there⟩)
          · exact ⟨.inl rfl, edge, found, leads, admits⟩
          · exact ⟨.inr mem, there⟩
        · rintro ⟨rfl | mem, there⟩
          · obtain ⟨same, found', leads', -⟩ := there
            rw [found] at found'
            cases found'
            rw [leads] at leads'
            exact .inl ⟨rfl, (Option.some.inj leads').symm⟩
          · exact .inr ⟨mem, there⟩
      · rw [List.mem_cons, ih later]
        refine and_congr_left fun there => (or_iff_right fun same => skipped ?_).symm
        obtain ⟨edge, found, leads, admits⟩ := there
        exact ⟨edge, far, same ▸ found, leads, admits⟩

theorem steps?_sublist (h : s.steps? filter far? ids = .ok steps) :
    (steps.map Prod.fst).Sublist ids := by
  induction ids generalizing steps with
  | nil =>
      cases h
      exact .slnil
  | cons first rest ih =>
      rcases steps?_cons_eq_ok h with ⟨_, _, _, _, _, tail, later, rfl⟩ | ⟨_, later⟩
      · exact (ih later).cons_cons first
      · exact (ih later).cons first

end Steps

theorem Sound.mem_leaving (h : s.Sound) {node : NodeId} {id : EdgeId} :
    id ∈ s.leaving node filter ↔ ∃ edge, s.edge? id = some edge ∧ edge.source = node ∧
      (filter.types ≠ [] → edge.type ∈ filter.types) := by
  unfold leaving
  by_cases any : filter.types = []
  · simp [any, h.mem_outgoing]
  · simp only [List.isEmpty_iff, any, ↓reduceIte, List.mem_flatMap, List.mem_eraseDups, h.outgoing]
    constructor
    · rintro ⟨type, listed, edge, found, source, rfl⟩
      exact ⟨edge, found, source, fun _ => listed⟩
    · rintro ⟨edge, found, source, listed⟩
      exact ⟨edge.type, listed any, edge, found, source, rfl⟩

theorem Sound.mem_arriving (h : s.Sound) {node : NodeId} {id : EdgeId} :
    id ∈ s.arriving node filter ↔ ∃ edge, s.edge? id = some edge ∧ edge.target = node ∧
      (filter.types ≠ [] → edge.type ∈ filter.types) := by
  unfold arriving
  by_cases any : filter.types = []
  · simp [any, h.mem_incoming]
  · simp only [List.isEmpty_iff, any, ↓reduceIte, List.mem_flatMap, List.mem_eraseDups, h.incoming]
    constructor
    · rintro ⟨type, listed, edge, found, target, rfl⟩
      exact ⟨edge, found, target, fun _ => listed⟩
    · rintro ⟨edge, found, target, listed⟩
      exact ⟨edge.type, listed any, edge, found, target, rfl⟩

theorem Sound.nodup_leaving (h : s.Sound) (node : NodeId) (filter : EdgeFilter) :
    (s.leaving node filter).Nodup := by
  unfold leaving
  split
  · exact h.nodup_outgoing node
  · exact nodup_flatMap_types (nodup_eraseDups _) (fun type => GroupMap.nodup_itemsAt _ type)
      h.outgoing_type_eq

theorem Sound.nodup_arriving (h : s.Sound) (node : NodeId) (filter : EdgeFilter) :
    (s.arriving node filter).Nodup := by
  unfold arriving
  split
  · exact h.nodup_incoming node
  · exact nodup_flatMap_types (nodup_eraseDups _) (fun type => GroupMap.nodup_itemsAt _ type)
      h.incoming_type_eq

theorem Sound.mem_stepsOut? (h : s.Sound) {node : NodeId} {steps : List (EdgeId × NodeId)}
    (ok : s.stepsOut? node filter = .ok steps) {id : EdgeId} {far : NodeId} :
    (id, far) ∈ steps ↔ ∃ edge, s.edge? id = some edge ∧ filter.Admits edge ∧
      edge.source = node ∧ edge.target = far := by
  rw [mem_steps? ok, h.mem_leaving]
  constructor
  · rintro ⟨⟨edge, found, source, -⟩, other, found', target, admits⟩
    rw [found] at found'
    cases found'
    exact ⟨edge, found, admits, source, Option.some.inj target⟩
  · rintro ⟨edge, found, admits, source, target⟩
    exact ⟨⟨edge, found, source, admits.1⟩, edge, found, congrArg some target, admits⟩

theorem Sound.mem_stepsBack? (h : s.Sound) {node : NodeId} {loops : Bool}
    {steps : List (EdgeId × NodeId)} (ok : s.stepsBack? node loops filter = .ok steps)
    {id : EdgeId} {far : NodeId} :
    (id, far) ∈ steps ↔ ∃ edge, s.edge? id = some edge ∧ filter.Admits edge ∧
      (edge.target = node ∧ edge.source = far) ∧ (loops = true ∨ far ≠ node) := by
  have skip (edge : Edge) (source : edge.source = far) (target : edge.target = node) :
      (if edge.isSelfLoop && !loops then none else some edge.source) = some far ↔
        (loops = true ∨ far ≠ node) := by
    cases loops <;> simp [Edge.isSelfLoop, source, target]
  rw [mem_steps? ok, h.mem_arriving]
  constructor
  · rintro ⟨⟨edge, found, target, -⟩, other, found', reached, admits⟩
    rw [found] at found'
    cases found'
    have source : edge.source = far := by
      split at reached
      · cases reached
      · exact Option.some.inj reached
    exact ⟨edge, found, admits, ⟨target, source⟩, (skip edge source target).mp reached⟩
  · rintro ⟨edge, found, admits, ⟨target, source⟩, taken⟩
    exact ⟨⟨edge, found, target, admits.1⟩, edge, found, (skip edge source target).mpr taken, admits⟩

theorem expand?_both_eq_ok {node : NodeId} {steps : List (EdgeId × NodeId)}
    (ok : s.expand? node .both filter = .ok steps) : ∃ forwards backwards,
      s.stepsOut? node filter = .ok forwards ∧ s.stepsBack? node false filter = .ok backwards ∧
        steps = forwards ++ backwards := by
  rw [expand?] at ok
  cases out : s.stepsOut? node filter with
  | error e =>
      rw [out] at ok
      cases ok
  | ok forwards =>
      rw [out] at ok
      obtain ⟨backwards, back, rfl⟩ := exists_of_map_eq_ok ok
      exact ⟨forwards, backwards, rfl, back, rfl⟩

theorem Sound.mem_expand? (h : s.Sound) {node : NodeId} {steps : List (EdgeId × NodeId)}
    (ok : s.expand? node direction filter = .ok steps) {id : EdgeId} {far : NodeId} :
    (id, far) ∈ steps ↔ s.Leads direction filter node id far := by
  cases direction with
  | outgoing => exact h.mem_stepsOut? ok
  | incoming =>
      refine (h.mem_stepsBack? ok).trans ?_
      simp only [Leads, Edge.Crosses, true_or, and_true]
  | both =>
      obtain ⟨forwards, backwards, out, back, rfl⟩ := expand?_both_eq_ok ok
      rw [List.mem_append, h.mem_stepsOut? out, h.mem_stepsBack? back]
      constructor
      · rintro (⟨edge, found, admits, forth⟩ | ⟨edge, found, admits, crossed, -⟩)
        · exact ⟨edge, found, admits, .inl forth⟩
        · exact ⟨edge, found, admits, .inr crossed⟩
      · rintro ⟨edge, found, admits, forth | ⟨target, source⟩⟩
        · exact .inl ⟨edge, found, admits, forth⟩
        · by_cases loop : far = node
          · exact .inl ⟨edge, found, admits, source.trans loop, target.trans loop.symm⟩
          · exact .inr ⟨edge, found, admits, ⟨target, source⟩, .inr loop⟩

theorem Sound.nodup_expand? (h : s.Sound) {node : NodeId} {steps : List (EdgeId × NodeId)}
    (ok : s.expand? node direction filter = .ok steps) : (steps.map Prod.fst).Nodup := by
  cases direction with
  | outgoing => exact (steps?_sublist ok).nodup (h.nodup_leaving node filter)
  | incoming => exact (steps?_sublist ok).nodup (h.nodup_arriving node filter)
  | both =>
      obtain ⟨forwards, backwards, out, back, rfl⟩ := expand?_both_eq_ok ok
      rw [List.map_append]
      refine List.nodup_append.mpr ⟨(steps?_sublist out).nodup (h.nodup_leaving node filter),
        (steps?_sublist back).nodup (h.nodup_arriving node filter), ?_⟩
      intro id forth _ crossed same
      subst same
      obtain ⟨⟨_, far⟩, mem_forth, rfl⟩ := List.mem_map.mp forth
      obtain ⟨⟨_, near⟩, mem_back, same⟩ := List.mem_map.mp crossed
      cases same
      obtain ⟨edge, found, -, source, -⟩ := (h.mem_stepsOut? out).mp mem_forth
      obtain ⟨other, found', -, ⟨-, source'⟩, apart⟩ := (h.mem_stepsBack? back).mp mem_back
      rw [found] at found'
      cases found'
      rcases apart with never | apart
      · cases never
      · exact apart (source'.symm.trans source)

end Store

end PropertyGraph
