import PropertyGraph.Proofs.Match.Faults
import Mathlib.Data.List.Range

namespace PropertyGraph

namespace Operator

def element : Operator → Element
  | .nodeScan _ node => .node node
  | .edgeScan _ edge => .edge edge
  | .expandEdge _ _ _ edge => .edge edge
  | .edgeEndpoint _ _ _ node => .node node
  | .varLengthExpand _ _ _ edge => .edge edge

def beside : Operator → Option (Nat × Bool)
  | .nodeScan _ _ => none
  | .edgeScan _ _ => none
  | .expandEdge _ anchor forward _ => some (anchor, forward)
  | .edgeEndpoint _ anchor forward _ => some (anchor, forward)
  | .varLengthExpand _ anchor forward _ => anchor.map (·, forward)

end Operator

namespace Task

@[simp] theorem element_operator (task : Task) : task.operator.element = task.element := by
  obtain ⟨position, element, beside⟩ := task
  cases element <;> cases beside <;>
    simp only [operator, Element.startOperator, Element.stepOperator] <;> first | rfl | (split <;> rfl)

@[simp] theorem beside_operator (task : Task) : task.operator.beside = task.beside := by
  obtain ⟨position, element, beside⟩ := task
  cases element <;> cases beside <;>
    simp only [operator, Element.startOperator, Element.stepOperator] <;> first | rfl | (split <;> rfl)

theorem map_position_operator (tasks : List Task) :
    (tasks.map operator).map Operator.position = tasks.map position := by
  rw [List.map_map]
  exact List.map_congr_left fun task _ => position_operator task

end Task

theorem Element.isNode_iff {element : Element} : element.isNode = true ↔ element.kind = .node := by
  cases element <;> simp [isNode, kind]

theorem Context.Awaits.of_append {ctx : Context} {before after : List Task}
    (awaits : ctx.Awaits (before ++ after)) : ctx.Awaits before where
  distinct := by
    have distinct := awaits.distinct
    rw [List.map_append] at distinct
    exact (List.nodup_append.mp distinct).1
  within task mem := awaits.within task (List.mem_append_left _ mem)
  empty task mem := awaits.empty task (List.mem_append_left _ mem)

namespace PathPattern

structure Outward (p : PathPattern) (pivot : Nat) (steps : List Operator) : Prop where
  order : steps.map Operator.position =
    pivot :: (List.range' (pivot + 1) (p.length - (pivot + 1)) ++ (List.range pivot).reverse)
  once : (steps.map Operator.position).Perm (List.range p.length)
  carries : ∀ step ∈ steps, p.element? step.position = some step.element
  nodes : ∀ step ∈ steps, step.element.isNode = true ↔ step.position % 2 = 0
  starts : ∀ step after, steps = step :: after → step.beside = none
  anchored : ∀ before step after, steps = before ++ step :: after → before ≠ [] →
    ∃ anchor forward, step.beside = some (anchor, forward) ∧
      anchor ∈ before.map Operator.position ∧
      if forward = true then anchor + 1 = step.position else anchor = step.position + 1

variable {p : PathPattern} {pivot i : Nat}

section Positions

theorem element?_eq_none_iff : p.element? i = none ↔ p.length ≤ i := by
  rw [element?_eq, List.getElem?_eq_none_iff, length_elements]

theorem isNode_of_element? {element : Element} (there : p.element? i = some element) :
    element.isNode = true ↔ i % 2 = 0 := by
  rw [element?_eq] at there
  rw [Element.isNode_iff, kind_of_getElem? there]
  split <;> simp_all

theorem rightOf_eq (p : PathPattern) (pivot : Nat) :
    p.rightOf pivot = List.range' (pivot + 1) (p.length - (pivot + 1)) := by
  rw [rightOf, List.range'_eq_map_range]

theorem pivot_of_layOut? {plan : Plan} (laid : p.layOut? pivot = .ok plan) : plan.pivot = pivot := by
  unfold layOut? at laid
  split at laid
  · cases laid
  · split at laid
    · cases laid
    · obtain ⟨left, -, rfl⟩ := exists_of_map_eq_ok laid
      rfl

end Positions

namespace Covers

variable {tasks : List Task}

theorem head_position {task : Task} {rest : List Task} (covers : p.Covers pivot (task :: rest)) :
    task.position = pivot := (List.cons.inj covers.positions).1

theorem ne_pivot {before after : List Task} {task : Task}
    (covers : p.Covers pivot (before ++ task :: after)) (later : before ≠ []) :
    task.position ≠ pivot := by
  obtain ⟨first, rest, rfl⟩ := List.exists_cons_of_ne_nil later
  have distinct := covers.nodup_positions
  rw [List.cons_append, List.map_cons, List.nodup_cons] at distinct
  rw [← covers.head_position]
  exact fun same => distinct.1 (same ▸ List.mem_map_of_mem (by simp))

theorem anchor_mem {before after : List Task} {task : Task} {anchor : Nat} {forward : Bool}
    (covers : p.Covers pivot (before ++ task :: after)) (bound : pivot < p.length)
    (beside : task.beside = some (anchor, forward)) : anchor ∈ before.map Task.position ∧
      if forward = true then anchor + 1 = task.position else anchor = task.position + 1 := by
  have listed : task ∈ before ++ task :: after := by simp
  have within := (covers.mem_positions bound).mp (List.mem_map_of_mem listed)
  have side := covers.side task listed
  rw [beside, PathPattern.side] at side
  have place : anchor < p.length ∧
      if forward = true then anchor + 1 = task.position else anchor = task.position + 1 := by
    split at side
    · cases side
    · split at side
      · cases side
        exact ⟨by omega, by simp; omega⟩
      · cases side
        exact ⟨by omega, by simp⟩
  refine ⟨?_, place.2⟩
  -- Every position has a task, and no task stands beside one whose task comes later.
  have ordered := (List.pairwise_append.mp covers.ordered).2.1
  have among := (covers.mem_positions bound).mpr place.1
  rw [List.map_append, List.mem_append, List.map_cons, List.mem_cons] at among
  rcases among with earlier | here | later
  · exact earlier
  · have beside_itself := place.2
    rw [here] at beside_itself
    split at beside_itself <;> omega
  · obtain ⟨other, mem, same⟩ := List.mem_map.mp later
    exact absurd same.symm (List.rel_of_pairwise_cons ordered mem anchor forward beside)

theorem outward (covers : p.Covers pivot tasks) (bound : pivot < p.length) :
    p.Outward pivot (tasks.map Task.operator) where
  order := by rw [Task.map_position_operator, covers.positions, rightOf_eq]; rfl
  once := by
    rw [Task.map_position_operator]
    refine (List.perm_ext_iff_of_nodup covers.nodup_positions List.nodup_range).mpr fun i => ?_
    rw [covers.mem_positions bound, List.mem_range]
  carries step mem := by
    obtain ⟨task, listed, rfl⟩ := List.mem_map.mp mem
    rw [Task.position_operator, Task.element_operator, element?_eq, covers.element task listed]
  nodes step mem := by
    obtain ⟨task, listed, rfl⟩ := List.mem_map.mp mem
    rw [Task.position_operator, Task.element_operator]
    exact isNode_of_element? ((element?_eq p _).trans (covers.element task listed))
  starts step after split := by
    obtain ⟨task, rest, rfl, rfl, rfl⟩ := List.map_eq_cons_iff.mp split
    rw [Task.beside_operator, covers.side task List.mem_cons_self, covers.head_position,
      PathPattern.side, if_pos rfl]
  anchored before step after split later := by
    obtain ⟨earlier, others, rfl, rfl, at_step⟩ := List.map_eq_append_iff.mp split
    obtain ⟨task, rest, rfl, rfl, rfl⟩ := List.map_eq_cons_iff.mp at_step
    have apart := covers.ne_pivot fun empty => later (by rw [empty]; rfl)
    obtain ⟨anchor, forward, beside⟩ : ∃ anchor forward, task.beside = some (anchor, forward) := by
      rw [covers.side task (by simp), PathPattern.side, if_neg apart]
      split <;> exact ⟨_, _, rfl⟩
    rw [Task.map_position_operator, Task.position_operator, Task.beside_operator]
    exact ⟨anchor, forward, beside, covers.anchor_mem bound beside⟩

theorem bound_iff (covers : p.Covers pivot tasks) (inside : pivot < p.length) {g : Graph}
    {scope : Scope} {before after : List Operator} {ctx : Context}
    (split : tasks.map Task.operator = before ++ after)
    (mem : .ok ctx ∈ contexts g scope before (.empty p.length)) :
    (∃ slot, ctx.slot? i = some slot) ↔ i ∈ before.map Operator.position := by
  obtain ⟨earlier, later, rfl, rfl, -⟩ := List.map_eq_append_iff.mp split
  have completes := completes_of_mem_contexts (P := fun _ _ => True) (fun _ _ _ _ => trivial)
    (covers.awaits inside).of_append mem
  rw [Task.map_position_operator]
  constructor
  · rintro ⟨slot, there⟩
    by_contra free
    rw [completes.others i free, Context.slot?, Context.empty, List.getElem?_replicate] at there
    split at there <;> cases there
  · intro listed
    obtain ⟨task, mem, rfl⟩ := List.mem_map.mp listed
    obtain ⟨slot, there, -⟩ := completes.found task mem
    exact ⟨slot, there⟩

end Covers

theorem plan?_outward (p : PathPattern) :
    (∀ (g : Graph) (scope : Scope) (pivot : Nat), pivot < p.length → ∃ plan,
      p.plan? g scope (some pivot) = .ok plan ∧ plan.pivot = pivot ∧ p.Outward pivot plan.steps ∧
      ∀ before after ctx, plan.steps = before ++ after →
        .ok ctx ∈ contexts g scope before (.empty p.length) →
          ∀ i, (∃ slot, ctx.slot? i = some slot) ↔ i ∈ before.map Operator.position) ∧
    ∀ i, p.element? i = p.elements[i]? ∧ (p.element? i = none ↔ p.length ≤ i) ∧
      ∀ element, p.element? i = some element → (element.isNode = true ↔ i % 2 = 0) := by
  refine ⟨fun g scope pivot inside => ?_,
    fun i => ⟨element?_eq p i, element?_eq_none_iff, fun _ => isNode_of_element?⟩⟩
  obtain ⟨plan, laid⟩ := exists_layOut? inside
  obtain ⟨-, tasks, steps, covers⟩ := layOut?_eq_ok laid
  refine ⟨plan, ?_, pivot_of_layOut? laid, ?_, fun before after ctx split mem i => ?_⟩
  · rw [plan?, if_pos inside, laid]
  · rw [steps]
    exact covers.outward inside
  · exact covers.bound_iff inside (steps ▸ split) mem

def detour : PathPattern := hop.step ((EdgePattern.any .incoming).withLength ⟨some 1, some 2⟩) .any

def detourPlan : Plan where
  pivot := 1
  steps := [.edgeScan 1 (.any .both), .edgeEndpoint 2 1 true (.named .any "y"),
    .varLengthExpand 3 (some 2) true ((EdgePattern.any .incoming).withLength ⟨some 1, some 2⟩),
    .edgeEndpoint 4 3 true .any, .edgeEndpoint 0 1 false (.named .any "x")]

theorem plan?_outward_detour :
    let ctx : Context := ⟨.ofList [("y", .node ⟨1⟩)],
      [none, some (.edges [⟨0⟩] ⟨0⟩ ⟨1⟩), some (.node ⟨1⟩), none, none]⟩
    1 < detour.length ∧ detour.plan? .pair ⟨∅, ∅⟩ (some 1) = .ok detourPlan ∧
      detour.Outward 1 detourPlan.steps ∧
      .ok ctx ∈ contexts .pair ⟨∅, ∅⟩ (detourPlan.steps.take 2) (.empty detour.length) ∧
      (∀ i, (∃ slot, ctx.slot? i = some slot) ↔ i ∈ [1, 2]) ∧
      detour.element? 4 = some (.node .any) ∧ ((Element.node .any).isNode = true ↔ 4 % 2 = 0) := by
  intro ctx
  have planned : detour.plan? .pair ⟨∅, ∅⟩ (some 1) = .ok detourPlan := by decide
  have last : detour.element? 4 = some (.node .any) := by decide
  have found : .ok ctx ∈ contexts .pair ⟨∅, ∅⟩ (detourPlan.steps.take 2) (.empty detour.length) := by
    decide
  obtain ⟨plans, elements⟩ := plan?_outward detour
  obtain ⟨plan, same, -, outward, bound⟩ := plans .pair ⟨∅, ∅⟩ 1 (by decide)
  rw [planned] at same
  cases same
  exact ⟨by decide, planned, outward, found, bound _ _ ctx rfl found,
    last, (elements 4).2.2 _ last⟩

end PathPattern

end PropertyGraph
