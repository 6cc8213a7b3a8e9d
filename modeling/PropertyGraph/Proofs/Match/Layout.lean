import PropertyGraph.Proofs.Match.Tasks
import Mathlib.Data.List.Forall2

/-!
Plans laid out from a pivot. Every position has one task, which starts from the neighbour on the side
of the pivot; so all tasks are done just when every slot is one that its element admits and every
slot meets the next one, wherever the pivot is.
-/

namespace PropertyGraph

section Positions

variable {α β : Type}

theorem forall₂_iff_getElem? {R : α → β → Prop} {as : List α} {bs : List β} :
    List.Forall₂ R as bs ↔ as.length = bs.length ∧
      ∀ (i : Nat) (a : α) (b : β), as[i]? = some a → bs[i]? = some b → R a b := by
  rw [List.forall₂_iff_get]
  refine and_congr_right fun _ => ?_
  constructor
  · intro each i a b at_a at_b
    obtain ⟨bound_a, rfl⟩ := List.getElem?_eq_some_iff.mp at_a
    obtain ⟨bound_b, rfl⟩ := List.getElem?_eq_some_iff.mp at_b
    exact each i bound_a bound_b
  · intro each i bound_a bound_b
    exact each i _ _ (List.getElem?_eq_getElem bound_a) (List.getElem?_eq_getElem bound_b)

theorem isChain_iff_getElem? {R : α → α → Prop} {as : List α} :
    as.IsChain R ↔ ∀ (i : Nat) (a b : α), as[i]? = some a → as[i + 1]? = some b → R a b := by
  rw [List.isChain_iff_getElem]
  constructor
  · intro each i a b at_a at_b
    obtain ⟨bound_a, rfl⟩ := List.getElem?_eq_some_iff.mp at_a
    obtain ⟨bound_b, rfl⟩ := List.getElem?_eq_some_iff.mp at_b
    exact each i bound_b
  · intro each i bound
    exact each i _ _ (List.getElem?_eq_getElem (Nat.lt_of_succ_lt bound))
      (List.getElem?_eq_getElem bound)

end Positions

namespace PathPattern

theorem elements_cons (start : NodePattern) (segment : Segment) (segments : List Segment) :
    elements ⟨start, segment :: segments⟩ =
      .node start :: .edge segment.edge :: elements ⟨segment.node, segments⟩ := rfl

theorem length_elements (p : PathPattern) : p.elements.length = p.length := by
  obtain ⟨start, segments⟩ := p
  induction segments generalizing start with
  | nil => rfl
  | cons segment segments ih =>
      rw [elements_cons, List.length_cons, List.length_cons, ih]
      simp only [length, List.length_cons]
      omega

theorem element?_eq (p : PathPattern) (position : Nat) :
    p.element? position = p.elements[position]? := by
  obtain ⟨start, segments⟩ := p
  induction segments generalizing start position with
  | nil =>
      cases position with
      | zero => rfl
      | succ position => simp [element?, elements]
  | cons segment segments ih =>
      rw [elements_cons]
      match position with
      | 0 => rfl
      | 1 => simp [element?]
      | 2 => simp [element?, elements]
      | position + 3 =>
          have half : (position + 3 - 1) / 2 = (position + 1 - 1) / 2 + 1 := by omega
          have parity : (position + 3) % 2 = (position + 1) % 2 := by omega
          rw [List.getElem?_cons_succ, List.getElem?_cons_succ, ← ih]
          rw [element?, element?, if_neg (Nat.succ_ne_zero _), if_neg (Nat.succ_ne_zero _), half,
            parity, List.getElem?_cons_succ]

section Plan

variable {p : PathPattern}

/-- The neighbour from which a position is reached in a plan that starts at the pivot. -/
def side (pivot position : Nat) : Option (Nat × Bool) :=
  if position = pivot then none
  else if pivot < position then some (position - 1, true)
  else some (position + 1, false)

/-- The tasks that bind each position of the pattern once, outwards from the pivot. -/
structure Covers (p : PathPattern) (pivot : Nat) (tasks : List Task) : Prop where
  positions : tasks.map Task.position = pivot :: (p.rightOf pivot ++ leftOf pivot)
  element : ∀ task ∈ tasks, p.elements[task.position]? = some task.element
  side : ∀ task ∈ tasks, task.beside = side pivot task.position

theorem stepsAt?_eq_ok {forward : Bool} {positions : List Nat} {steps : List Operator}
    (h : p.stepsAt? forward positions = .ok steps) : ∃ tasks : List Task,
      steps = tasks.map Task.operator ∧ tasks.map Task.position = positions ∧
        ∀ task ∈ tasks, p.elements[task.position]? = some task.element ∧ task.beside =
          some (if forward then task.position - 1 else task.position + 1, forward) := by
  induction positions generalizing steps with
  | nil =>
      cases h
      exact ⟨[], rfl, rfl, by simp⟩
  | cons position rest ih =>
      rw [stepsAt?, elementAt?] at h
      cases at_position : p.element? position with
      | none =>
          rw [at_position] at h
          cases h
      | some element =>
          rw [at_position] at h
          obtain ⟨steps', later, rfl⟩ := exists_of_map_eq_ok h
          obtain ⟨tasks, rfl, rfl, each⟩ := ih later
          refine ⟨⟨position, element,
            some (if forward then position - 1 else position + 1, forward)⟩ :: tasks,
            rfl, rfl, List.forall_mem_cons.mpr ⟨⟨?_, rfl⟩, each⟩⟩
          rw [← element?_eq, at_position]

theorem mem_rightOf {pivot position : Nat} :
    position ∈ p.rightOf pivot ↔ pivot < position ∧ position < p.length := by
  simp only [rightOf, List.mem_map, List.mem_range]
  constructor
  · rintro ⟨i, bound, rfl⟩
    omega
  · rintro ⟨after, before⟩
    exact ⟨position - (pivot + 1), by omega, by omega⟩

theorem mem_leftOf {pivot position : Nat} : position ∈ leftOf pivot ↔ position < pivot := by
  simp [leftOf]

theorem covers_cons {pivot : Nat} {element : Element} {right left : List Task}
    (at_pivot : p.elements[pivot]? = some element)
    (right_positions : right.map Task.position = p.rightOf pivot)
    (left_positions : left.map Task.position = leftOf pivot)
    (each_right : ∀ task ∈ right, p.elements[task.position]? = some task.element ∧
      task.beside = some (task.position - 1, true))
    (each_left : ∀ task ∈ left, p.elements[task.position]? = some task.element ∧
      task.beside = some (task.position + 1, false)) :
    p.Covers pivot (⟨pivot, element, none⟩ :: (right ++ left)) := by
  refine ⟨by simp [right_positions, left_positions], ?_, ?_⟩
  · refine List.forall_mem_cons.mpr ⟨at_pivot, fun task mem => ?_⟩
    rcases List.mem_append.mp mem with mem | mem
    · exact (each_right task mem).1
    · exact (each_left task mem).1
  · refine List.forall_mem_cons.mpr ⟨by simp [side], fun task mem => ?_⟩
    rcases List.mem_append.mp mem with mem | mem
    · have listed : task.position ∈ p.rightOf pivot :=
        right_positions ▸ List.mem_map_of_mem mem
      obtain ⟨after, -⟩ := mem_rightOf.mp listed
      rw [(each_right task mem).2, side, if_neg (Nat.ne_of_gt after), if_pos after]
    · have listed : task.position ∈ leftOf pivot :=
        left_positions ▸ List.mem_map_of_mem mem
      have before := mem_leftOf.mp listed
      rw [(each_left task mem).2, side, if_neg (Nat.ne_of_lt before),
        if_neg (Nat.not_lt_of_gt before)]

theorem layOut?_eq_ok {pivot : Nat} {plan : Plan} (h : p.layOut? pivot = .ok plan) :
    pivot < p.length ∧ ∃ tasks : List Task, plan.steps = tasks.map Task.operator ∧
      p.Covers pivot tasks := by
  rw [layOut?, elementAt?] at h
  cases at_pivot : p.element? pivot with
  | none =>
      rw [at_pivot] at h
      cases h
  | some element =>
      rw [at_pivot] at h
      cases right : p.stepsAt? true (p.rightOf pivot) with
      | error e =>
          rw [right] at h
          cases h
      | ok right_steps =>
          rw [right] at h
          obtain ⟨left_steps, left, rfl⟩ := exists_of_map_eq_ok h
          obtain ⟨right_tasks, rfl, right_positions, each_right⟩ := stepsAt?_eq_ok right
          obtain ⟨left_tasks, rfl, left_positions, each_left⟩ := stepsAt?_eq_ok left
          rw [element?_eq] at at_pivot
          refine ⟨?_, ⟨pivot, element, none⟩ :: (right_tasks ++ left_tasks), ?_, ?_⟩
          · rw [← length_elements]
            exact (List.getElem?_eq_some_iff.mp at_pivot).1
          · simp [Task.operator]
          · exact covers_cons at_pivot right_positions left_positions each_right each_left

theorem plan?_eq_ok {g : Graph} {scope : Scope} {pivot : Option Nat} {plan : Plan}
    (h : p.plan? g scope pivot = .ok plan) :
    ∃ start, start < p.length ∧ ∃ tasks : List Task,
      plan.steps = tasks.map Task.operator ∧ p.Covers start tasks := by
  unfold plan? at h
  split at h
  · split at h
    · exact ⟨_, layOut?_eq_ok h⟩
    · cases h
  · split at h
    · cases h
    · exact ⟨_, layOut?_eq_ok h⟩

end Plan

namespace Covers

variable {p : PathPattern} {pivot : Nat} {tasks : List Task}

theorem nodup_positions (covers : p.Covers pivot tasks) : (tasks.map Task.position).Nodup := by
  rw [covers.positions, List.nodup_cons, List.nodup_append]
  refine ⟨fun mem => ?_, ?_, ?_, ?_⟩
  · rcases List.mem_append.mp mem with mem | mem
    · exact Nat.lt_irrefl _ (mem_rightOf.mp mem).1
    · exact Nat.lt_irrefl _ (mem_leftOf.mp mem)
  · exact List.nodup_range.map fun a b eq => by simpa using eq
  · exact List.nodup_reverse.mpr List.nodup_range
  · rintro i right _ left rfl
    exact Nat.lt_asymm (mem_rightOf.mp right).1 (mem_leftOf.mp left)

theorem mem_positions (covers : p.Covers pivot tasks) (bound : pivot < p.length) {position : Nat} :
    position ∈ tasks.map Task.position ↔ position < p.length := by
  rw [covers.positions, List.mem_cons, List.mem_append, mem_rightOf, mem_leftOf]
  omega

theorem exists_task (covers : p.Covers pivot tasks) (bound : pivot < p.length) {position : Nat}
    {element : Element} (at_position : p.elements[position]? = some element) :
    ∃ task ∈ tasks, task.position = position ∧ task.element = element := by
  have within : position < p.length := by
    rw [← length_elements]
    exact (List.getElem?_eq_some_iff.mp at_position).1
  obtain ⟨task, mem, rfl⟩ := List.mem_map.mp ((covers.mem_positions bound).mpr within)
  have there := covers.element task mem
  rw [at_position] at there
  exact ⟨task, mem, rfl, (Option.some.inj there).symm⟩

theorem awaits (covers : p.Covers pivot tasks) (bound : pivot < p.length) :
    (Context.empty p.length).Awaits tasks := by
  refine ⟨covers.nodup_positions, fun task mem => ?_, fun task mem => ?_⟩
  · rw [Context.empty, List.length_replicate]
    exact (covers.mem_positions bound).mp (List.mem_map_of_mem mem)
  · rw [Context.slot?, Context.empty, List.getElem?_replicate]
    split <;> rfl

section Asks

variable {g : Graph} {slots : List Slot}

theorem exists_task_at (covers : p.Covers pivot tasks) (bound : pivot < p.length)
    (full : slots.length = p.length) {Q : Task → Slot → Prop}
    (each : ∀ task ∈ tasks, ∃ slot, slots[task.position]? = some slot ∧ Q task slot) {i : Nat}
    {slot : Slot} (at_i : slots[i]? = some slot) :
    ∃ task ∈ tasks, task.position = i ∧ Q task slot := by
  have within : i < p.length := full ▸ (List.getElem?_eq_some_iff.mp at_i).1
  obtain ⟨task, mem, rfl⟩ := List.mem_map.mp ((covers.mem_positions bound).mpr within)
  obtain ⟨other, there, held⟩ := each task mem
  rw [at_i] at there
  cases there
  exact ⟨task, mem, rfl, held⟩

theorem meets_of_stands (covers : p.Covers pivot tasks) (bound : pivot < p.length)
    (full : slots.length = p.length)
    (stands : ∀ task ∈ tasks, ∃ slot, slots[task.position]? = some slot ∧
      task.Stands (fun i => slots[i]?) slot) {i : Nat} {a b : Slot}
    (at_a : slots[i]? = some a) (at_b : slots[i + 1]? = some b) : a.Meets b := by
  by_cases reached : pivot ≤ i
  · obtain ⟨task, mem, position, beside_b⟩ := covers.exists_task_at bound full stands at_b
    have beside : task.beside = some (i, true) := by
      rw [covers.side task mem, position, PathPattern.side, if_neg (by omega), if_pos (by omega)]
      rfl
    obtain ⟨other, there, meets⟩ := beside_b i true beside
    cases at_a.symm.trans there
    exact meets
  · obtain ⟨task, mem, position, beside_a⟩ := covers.exists_task_at bound full stands at_a
    have beside : task.beside = some (i + 1, false) := by
      rw [covers.side task mem, position, PathPattern.side, if_neg (by omega), if_neg (by omega)]
    obtain ⟨other, there, meets⟩ := beside_a (i + 1) false beside
    cases at_b.symm.trans there
    exact meets

theorem laid_of_stands (covers : p.Covers pivot tasks) (bound : pivot < p.length)
    (full : slots.length = p.length) {P : Element → Slot → Prop}
    (each : ∀ task ∈ tasks, ∃ slot, slots[task.position]? = some slot ∧ P task.element slot ∧
      task.Stands (fun i => slots[i]?) slot) :
    List.Forall₂ P p.elements slots ∧ slots.IsChain Slot.Meets := by
  rw [forall₂_iff_getElem?, isChain_iff_getElem?, length_elements]
  refine ⟨⟨full.symm, fun i element slot at_element at_slot => ?_⟩, fun i a b at_a at_b => ?_⟩
  · obtain ⟨task, mem, rfl, fits, -⟩ := covers.exists_task_at bound full each at_slot
    have there := covers.element task mem
    rw [at_element] at there
    cases there
    exact fits
  · refine covers.meets_of_stands bound full (fun task mem => ?_) at_a at_b
    obtain ⟨slot, there, -, stands⟩ := each task mem
    exact ⟨slot, there, stands⟩

theorem exists_beside_of_meets (covers : p.Covers pivot tasks) (bound : pivot < p.length)
    (full : slots.length = p.length)
    (meets : ∀ (i : Nat) (a b : Slot), slots[i]? = some a → slots[i + 1]? = some b → a.Meets b)
    {task : Task} (mem : task ∈ tasks) {slot : Slot}
    (at_position : slots[task.position]? = some slot)
    {anchor : Nat} {forward : Bool} (beside : task.beside = some (anchor, forward)) :
    ∃ other, slots[anchor]? = some other ∧ slot.Beside other forward := by
  have within := (covers.mem_positions bound).mp (List.mem_map_of_mem mem)
  rw [covers.side task mem, PathPattern.side] at beside
  split at beside
  · cases beside
  · split at beside
    · cases beside
      obtain ⟨other, at_anchor⟩ : ∃ other, slots[task.position - 1]? = some other :=
        ⟨_, List.getElem?_eq_getElem (by omega)⟩
      have next : task.position - 1 + 1 = task.position := by omega
      exact ⟨other, at_anchor, meets _ other slot at_anchor (next.symm ▸ at_position)⟩
    · cases beside
      obtain ⟨other, at_anchor⟩ : ∃ other, slots[task.position + 1]? = some other :=
        ⟨_, List.getElem?_eq_getElem (by omega)⟩
      exact ⟨other, at_anchor, meets _ slot other at_position at_anchor⟩

theorem asks_iff (covers : p.Covers pivot tasks) (bound : pivot < p.length)
    (full : slots.length = p.length) :
    (∀ task ∈ tasks, ∃ slot, slots[task.position]? = some slot ∧
        task.Asks g (fun i => slots[i]?) slot) ↔
      List.Forall₂ (Element.Admits g) p.elements slots ∧ slots.IsChain Slot.Meets := by
  refine ⟨covers.laid_of_stands bound full, ?_⟩
  rw [forall₂_iff_getElem?, isChain_iff_getElem?]
  rintro ⟨⟨-, admits⟩, meets⟩ task mem
  have within := (covers.mem_positions bound).mp (List.mem_map_of_mem mem)
  obtain ⟨slot, at_position⟩ : ∃ slot, slots[task.position]? = some slot :=
    ⟨_, List.getElem?_eq_getElem (full ▸ within)⟩
  exact ⟨slot, at_position, admits _ _ _ (covers.element task mem) at_position,
    fun anchor forward => covers.exists_beside_of_meets bound full meets mem at_position⟩

end Asks

end Covers

end PathPattern

end PropertyGraph
