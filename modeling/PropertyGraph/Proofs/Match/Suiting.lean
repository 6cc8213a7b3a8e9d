import PropertyGraph.Proofs.Graph.Lookup
import PropertyGraph.Proofs.Match.Layout

namespace PropertyGraph

def Findings.OnlyIncomparable {α : Type} (findings : Findings α) : Prop :=
  ∀ e, .error e ∈ findings → ∃ i, e = .incomparable i

namespace Findings

variable {α β : Type}

theorem onlyIncomparable_ofFound (found : List (Except Incomparable α)) :
    (ofFound found).OnlyIncomparable := by
  intro e mem
  obtain ⟨item, -, eq⟩ := List.mem_map.mp mem
  cases item with
  | error i =>
      cases eq
      exact ⟨i, rfl⟩
  | ok a => cases eq

theorem onlyIncomparable_error (i : Incomparable) :
    @OnlyIncomparable α [.error (.incomparable i)] := by
  intro e mem
  cases List.mem_singleton.mp mem
  exact ⟨i, rfl⟩

theorem onlyIncomparable_map_ok (l : List α) :
    OnlyIncomparable (l.map (.ok : α → Except MatchError α)) := by
  intro e mem
  obtain ⟨a, -, eq⟩ := List.mem_map.mp mem
  cases eq

theorem OnlyIncomparable.map {findings : Findings α} (only : findings.OnlyIncomparable)
    (f : α → β) : OnlyIncomparable (findings.map (Except.map f)) := by
  intro e mem
  obtain ⟨item, there, eq⟩ := List.mem_map.mp mem
  cases item with
  | error e' =>
      cases eq
      exact only e there
  | ok a => cases eq

theorem OnlyIncomparable.andThen {findings : Findings α} (only : findings.OnlyIncomparable)
    {next : α → Findings β} (each : ∀ a, .ok a ∈ findings → (next a).OnlyIncomparable) :
    (findings.andThen next).OnlyIncomparable := by
  intro e mem
  rcases error_mem_andThen.mp mem with mem | ⟨a, there, mem⟩
  · exact only e mem
  · exact each a there e mem

theorem OnlyIncomparable.append {as bs : Findings α} (first : as.OnlyIncomparable)
    (second : bs.OnlyIncomparable) : OnlyIncomparable (as ++ bs) := by
  intro e mem
  rcases List.mem_append.mp mem with mem | mem
  · exact first e mem
  · exact second e mem

theorem onlyIncomparable_flatMap {l : List α} {f : α → Findings β}
    (each : ∀ a ∈ l, (f a).OnlyIncomparable) : OnlyIncomparable (l.flatMap f) := by
  intro e mem
  obtain ⟨a, there, mem⟩ := List.mem_flatMap.mp mem
  exact each a there e mem

end Findings

def BoundValue.Live (g : Graph) : BoundValue → Prop
  | .node id => ∃ record, g.node? id = some record
  | .edges ids => ∀ id ∈ ids, ∃ record, g.edge? id = some record

structure Element.Suits (g : Graph) (element : Element) (slot : Slot) : Prop where
  kind : slot.kind = element.kind
  live : slot.value.Live g

section Paths

variable {s : Store} {direction : Direction} {filter : EdgeFilter} {length : HopRange}
  {origin : WalkOrigin}

theorem Store.exists_edge_of_mem_expand? {node : NodeId} {steps : List (EdgeId × NodeId)}
    (expanded : s.expand? node direction filter = .ok steps) {step : EdgeId × NodeId}
    (mem : step ∈ steps) : ∃ record, s.edge? step.1 = some record := by
  have of_steps {far? : Edge → Option NodeId} {ids : List EdgeId}
      {steps : List (EdgeId × NodeId)} (ok : s.steps? filter far? ids = .ok steps)
      (mem : step ∈ steps) : ∃ record, s.edge? step.1 = some record := by
    obtain ⟨-, record, found, -⟩ := (mem_steps? ok).mp mem
    exact ⟨record, found⟩
  cases direction with
  | outgoing => exact of_steps expanded mem
  | incoming => exact of_steps expanded mem
  | both =>
      obtain ⟨forwards, backwards, out, back, rfl⟩ := expand?_both_eq_ok expanded
      rcases List.mem_append.mp mem with mem | mem
      · exact of_steps out mem
      · exact of_steps back mem

namespace Trail

theorem onlyIncomparable_offered (t : Trail) (length : HopRange) :
    (t.offered length).OnlyIncomparable := by
  rw [offered]
  split
  · exact Findings.onlyIncomparable_map_ok [_]
  · exact Findings.onlyIncomparable_map_ok []

theorem onlyIncomparable_finds (t : Trail) :
    (t.finds s direction filter length origin).OnlyIncomparable := by
  induction t using finds_induction s direction filter length origin with
  | ended t stopped =>
      rw [finds_of_ended stopped]
      exact t.onlyIncomparable_offered length
  | failed t e ongoing failed =>
      rw [finds_of_error ongoing failed]
      exact (t.onlyIncomparable_offered length).append (Findings.onlyIncomparable_error e)
  | grown t steps ongoing expanded ih =>
      rw [finds_of_ok ongoing expanded]
      exact (t.onlyIncomparable_offered length).append (Findings.onlyIncomparable_flatMap ih)

theorem live_of_mem_finds {t : Trail} {path : List EdgeId × NodeId}
    (mem : .ok path ∈ t.finds s direction filter length origin)
    (live : ∀ id ∈ t.edges, ∃ record, s.edge? id = some record) :
    ∀ id ∈ path.1, ∃ record, s.edge? id = some record := by
  have offered_live {t : Trail} (mem : .ok path ∈ t.offered length)
      (live : ∀ id ∈ t.edges, ∃ record, s.edge? id = some record) :
      ∀ id ∈ path.1, ∃ record, s.edge? id = some record := by
    obtain ⟨-, -, rfl⟩ := ok_mem_offered.mp mem
    exact live
  induction t using finds_induction s direction filter length origin with
  | ended t stopped =>
      rw [finds_of_ended stopped] at mem
      exact offered_live mem live
  | failed t e ongoing failed =>
      rw [finds_of_error ongoing failed] at mem
      rcases List.mem_append.mp mem with mem | mem
      · exact offered_live mem live
      · cases List.mem_singleton.mp mem
  | grown t steps ongoing expanded ih =>
      rw [finds_of_ok ongoing expanded] at mem
      rcases List.mem_append.mp mem with mem | mem
      · exact offered_live mem live
      · obtain ⟨u, grown, mem⟩ := List.mem_flatMap.mp mem
        refine ih u grown mem fun id there => ?_
        obtain ⟨step, listed, extended⟩ := mem_extensions.mp grown
        obtain ⟨-, edges⟩ := edges_of_extend? extended
        rw [edges] at there
        rcases List.mem_append.mp there with there | there
        · exact live id there
        · cases List.mem_singleton.mp there
          exact Store.exists_edge_of_mem_expand? expanded listed

end Trail

end Paths

namespace Operator

variable {g : Graph} {scope : Scope} {slot : Slot}

section Found

theorem onlyIncomparable_scanNodes (node : NodePattern) :
    (scanNodes g scope node).OnlyIncomparable := by
  rw [scanNodes]
  split
  · exact Findings.onlyIncomparable_error _
  · exact (Findings.onlyIncomparable_ofFound _).map _

theorem onlyIncomparable_scanEdges (edge : EdgePattern) :
    (scanEdges g scope edge).OnlyIncomparable := by
  rw [scanEdges]
  split
  · exact Findings.onlyIncomparable_error _
  · exact (Findings.onlyIncomparable_ofFound _).andThen
      fun id _ => Findings.onlyIncomparable_map_ok _

theorem onlyIncomparable_stepSlots (forward : Bool) (edge : EdgePattern) (near : NodeId) :
    (stepSlots g forward edge near).OnlyIncomparable := by
  rw [stepSlots]
  split
  · exact Findings.onlyIncomparable_error _
  · exact Findings.onlyIncomparable_map_ok _

theorem onlyIncomparable_endpointSlots (node : NodePattern) (id : NodeId) :
    (endpointSlots g node id).OnlyIncomparable :=
  (Findings.onlyIncomparable_ofFound _).map _

theorem onlyIncomparable_pathSlots (forward : Bool) (edge : EdgePattern) (start : NodeId) :
    (pathSlots g forward edge start).OnlyIncomparable :=
  (Trail.onlyIncomparable_finds _).map _

theorem suits_of_mem_scanNodes {node : NodePattern} (mem : .ok slot ∈ scanNodes g scope node) :
    (Element.node node).Suits g slot := by
  rw [scanNodes] at mem
  cases selected : g.selectNodes? node.filter with
  | error e =>
      rw [selected] at mem
      cases List.mem_singleton.mp mem
  | ok selection =>
      rw [selected] at mem
      obtain ⟨id, found, rfl⟩ := ok_mem_map_map.mp mem
      have found := Findings.ok_mem_ofFound.mp found
      obtain ⟨candidates, -, rfl⟩ := exists_of_map_eq_ok selected
      have sifted : ∃ ids, .ok id ∈ g.siftNodes node.filter ids := by
        rcases scanItems_cases _ (scope.knownNodes? node.name) (g.siftNodes node.filter) with
          walked | ⟨ids, -, walked⟩ <;> rw [walked] at found
        · exact ⟨candidates.items, found⟩
        · exact ⟨ids, found⟩
      obtain ⟨ids, there⟩ := sifted
      obtain ⟨-, record, there, -⟩ := mem_of_sift there
      exact ⟨rfl, record, there⟩

theorem suits_of_mem_scanEdges {edge : EdgePattern} (mem : .ok slot ∈ scanEdges g scope edge) :
    (Element.edge edge).Suits g slot := by
  rw [scanEdges] at mem
  split at mem
  · cases List.mem_singleton.mp mem
  · obtain ⟨id, -, mem⟩ := Findings.ok_mem_andThen.mp mem
    obtain ⟨record, left, right, found, -, rfl⟩ :=
      mem_orientedSlots.mp (Findings.ok_mem_map_ok.mp mem)
    refine ⟨rfl, fun other listed => ?_⟩
    cases List.mem_singleton.mp listed
    exact ⟨record, found⟩

theorem suits_of_mem_stepSlots {forward : Bool} {edge : EdgePattern} {near : NodeId}
    (mem : .ok slot ∈ stepSlots g forward edge near) : (Element.edge edge).Suits g slot := by
  rw [stepSlots] at mem
  split at mem
  · cases List.mem_singleton.mp mem
  · rename_i steps expanded
    obtain ⟨⟨id, far⟩, listed, rfl⟩ := List.mem_map.mp (Findings.ok_mem_map_ok.mp mem)
    obtain ⟨record, found⟩ := Store.exists_edge_of_mem_expand? expanded listed
    have live : (BoundValue.edges [id]).Live g := by
      intro other listed
      cases List.mem_singleton.mp listed
      exact ⟨record, found⟩
    cases forward <;> exact ⟨rfl, live⟩

theorem suits_of_mem_endpointSlots {node : NodePattern} {id : NodeId}
    (mem : .ok slot ∈ endpointSlots g node id) : (Element.node node).Suits g slot := by
  obtain ⟨other, found, rfl⟩ := ok_mem_map_map.mp mem
  obtain ⟨-, record, there, -⟩ := mem_of_sift (Findings.ok_mem_ofFound.mp found)
  exact ⟨rfl, record, there⟩

theorem suits_of_mem_pathSlots {forward : Bool} {edge : EdgePattern} {start : NodeId}
    (mem : .ok slot ∈ pathSlots g forward edge start) : (Element.edge edge).Suits g slot := by
  obtain ⟨⟨ids, last⟩, found, rfl⟩ := ok_mem_map_map.mp mem
  have live := Trail.live_of_mem_finds found fun id listed => by cases listed
  cases forward with
  | true => exact ⟨rfl, live⟩
  | false => exact ⟨rfl, fun id listed => live id (List.mem_reverse.mp listed)⟩

end Found

end Operator

namespace Task

variable {g : Graph} {scope : Scope} {ctx : Context} {task : Task} {slot : Slot}

theorem suits_of_mem_slots (mem : .ok slot ∈ task.operator.slots g scope ctx) :
    task.element.Suits g slot := by
  obtain ⟨position, element, beside⟩ := task
  cases element with
  | node node =>
      rcases beside with _ | ⟨anchor, forward⟩
      · exact Operator.suits_of_mem_scanNodes mem
      · simp only [operator, Element.stepOperator, Operator.slots] at mem
        split at mem
        · cases List.mem_singleton.mp mem
        · exact Operator.suits_of_mem_endpointSlots mem
  | edge edge =>
      rcases beside with _ | ⟨anchor, forward⟩
      · simp only [operator, Element.startOperator] at mem
        split at mem
        · exact Operator.suits_of_mem_scanEdges mem
        · obtain ⟨start, -, mem⟩ := List.mem_flatMap.mp mem
          exact Operator.suits_of_mem_pathSlots mem
      · simp only [operator, Element.stepOperator] at mem
        split at mem
        · rw [Operator.slots] at mem
          split at mem
          · cases List.mem_singleton.mp mem
          · exact Operator.suits_of_mem_stepSlots mem
        · rw [Operator.slots] at mem
          split at mem
          · cases List.mem_singleton.mp mem
          · exact Operator.suits_of_mem_pathSlots mem

def Anchored (task : Task) (ctx : Context) : Prop :=
  ∀ anchor forward, task.beside = some (anchor, forward) →
    ∃ slot, ctx.slot? anchor = some slot ∧ slot.kind ≠ task.element.kind

theorem onlyIncomparable_slots (anchored : task.Anchored ctx) :
    (task.operator.slots g scope ctx).OnlyIncomparable := by
  obtain ⟨position, element, beside⟩ := task
  cases element with
  | node node =>
      rcases beside with _ | ⟨anchor, forward⟩
      · exact Operator.onlyIncomparable_scanNodes node
      · obtain ⟨slot, bound, apart⟩ := anchored anchor forward rfl
        cases slot with
        | node id => exact absurd rfl apart
        | edges ids left right =>
            have ends := Operator.anchorEnds?_eq_ok.mpr ⟨ids, bound⟩
            simp only [operator, Element.stepOperator, Operator.slots, ends]
            exact Operator.onlyIncomparable_endpointSlots node _
  | edge edge =>
      rcases beside with _ | ⟨anchor, forward⟩
      · simp only [operator, Element.startOperator]
        split
        · exact Operator.onlyIncomparable_scanEdges edge
        · exact Findings.onlyIncomparable_flatMap
            fun start _ => Operator.onlyIncomparable_pathSlots true edge start
      · obtain ⟨slot, bound, apart⟩ := anchored anchor forward rfl
        cases slot with
        | edges ids left right => exact absurd rfl apart
        | node id =>
            have near := Operator.anchorNode?_eq_ok.mpr bound
            simp only [operator, Element.stepOperator]
            split
            · simp only [Operator.slots, near]
              exact Operator.onlyIncomparable_stepSlots forward edge id
            · simp only [Operator.slots, near]
              exact Operator.onlyIncomparable_pathSlots forward edge id

end Task

end PropertyGraph
