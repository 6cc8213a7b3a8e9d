import PropertyGraph.Proofs.Match.Operators

/-!
Plans as tasks: an element to bind at a position, anywhere or beside a position bound before. The
contexts to which tasks lead are just the ways to fill their positions so that every slot fits what
is asked of it and the names agree, in whatever order the tasks come.
-/

namespace PropertyGraph

/-- An element to bind at a position; `beside` is the neighbour to start from, on the left of the
position when it says so. -/
structure Task where
  position : Nat
  element : Element
  beside : Option (Nat × Bool)

namespace Task

def operator (task : Task) : Operator :=
  match task.beside with
  | none => task.element.startOperator task.position
  | some (anchor, forward) => task.element.stepOperator task.position anchor forward

@[simp] theorem position_operator (task : Task) : task.operator.position = task.position := by
  obtain ⟨position, element, beside⟩ := task
  cases element <;> cases beside <;>
    simp only [operator, Element.startOperator, Element.stepOperator] <;> first | rfl | (split <;> rfl)

@[simp] theorem name_operator (task : Task) : task.operator.name = task.element.name := by
  obtain ⟨position, element, beside⟩ := task
  cases element <;> cases beside <;>
    simp only [operator, Element.startOperator, Element.stepOperator] <;> first | rfl | (split <;> rfl)

/-- The slot does what the task asks for, among the slots at the other positions. -/
def Asks (task : Task) (g : Graph) (slotAt : Nat → Option Slot) (slot : Slot) : Prop :=
  task.element.Admits g slot ∧ ∀ anchor forward, task.beside = some (anchor, forward) →
    ∃ beside, slotAt anchor = some beside ∧ slot.Beside beside forward

def Stands (task : Task) (slotAt : Nat → Option Slot) (slot : Slot) : Prop :=
  ∀ anchor forward, task.beside = some (anchor, forward) →
    ∃ beside, slotAt anchor = some beside ∧ slot.Beside beside forward

/-- The name of the task's element leaves the slot to it: what is fixed outside admits the slot, and
any other name stands for its value. -/
def Names (task : Task) (scope : Scope) (valueOf : String → Option BoundValue) (slot : Slot) :
    Prop :=
  ∀ n, task.element.name = some n →
    scope.Admits n slot.value ∧ (¬scope.Fixes n → valueOf n = some slot.value)

section Slots

variable {g : Graph} {scope : Scope} {ctx : Context} {task : Task} {slot : Slot}

theorem admits_of_mem_slots (h : g.Sound) (mem : .ok slot ∈ task.operator.slots g scope ctx) :
    task.element.Admits g slot := by
  unfold operator at mem
  cases beside : task.beside with
  | none =>
      rw [beside] at mem
      exact task.element.startOperator_sound h mem
  | some side =>
      rw [beside] at mem
      exact task.element.stepOperator_sound h mem

theorem stands_of_mem_slots (mem : .ok slot ∈ task.operator.slots g scope ctx) :
    task.Stands ctx.slot? slot := by
  intro anchor forward beside
  unfold operator at mem
  rw [beside] at mem
  exact task.element.stepOperator_beside mem

theorem mem_slots (h : g.Sound) (clean : (task.operator.slots g scope ctx).Clean)
    (asks : task.Asks g ctx.slot? slot)
    (admitted : ∀ n, task.element.name = some n → scope.Admits n slot.value) :
    .ok slot ∈ task.operator.slots g scope ctx := by
  unfold operator at clean ⊢
  cases beside : task.beside with
  | none =>
      rw [beside] at clean
      exact task.element.startOperator_complete h clean asks.1 admitted
  | some side =>
      obtain ⟨anchor, forward⟩ := side
      rw [beside] at clean
      exact (task.element.mem_stepOperator h clean).mpr ⟨asks.1, asks.2 anchor forward beside⟩

theorem nodup_slots (h : g.Sound) (clean : (task.operator.slots g scope ctx).Clean) :
    (task.operator.slots g scope ctx).Nodup := by
  unfold operator at clean ⊢
  cases beside : task.beside with
  | none =>
      rw [beside] at clean
      exact task.element.nodup_startOperator h clean
  | some side =>
      rw [beside] at clean
      exact task.element.nodup_stepOperator h clean

theorem anchor_bound (clean : (task.operator.slots g scope ctx).Clean) {anchor : Nat}
    {forward : Bool} (beside : task.beside = some (anchor, forward)) :
    ∃ slot, ctx.slot? anchor = some slot := by
  unfold operator at clean
  rw [beside] at clean
  exact task.element.bound_of_clean_stepOperator clean

end Slots

theorem Stands.congr {task : Task} {slotAt slotAt' : Nat → Option Slot} {slot : Slot}
    (stands : task.Stands slotAt slot)
    (same : ∀ anchor forward, task.beside = some (anchor, forward) → ∀ beside,
      slotAt anchor = some beside → slotAt' anchor = some beside) : task.Stands slotAt' slot := by
  intro anchor forward eq
  obtain ⟨beside, bound, meets⟩ := stands anchor forward eq
  exact ⟨beside, same anchor forward eq beside bound, meets⟩

end Task

section Contexts

variable {g : Graph} {scope : Scope} {ctx final : Context} {tasks : List Task}

theorem Context.slot?_set {ctx filled : Context} {position : Nat} {slot : Slot}
    (path : filled.path = ctx.path.set position (some slot)) (bound : position < ctx.path.length)
    (other : Nat) :
    filled.slot? other = if other = position then some slot else ctx.slot? other := by
  rw [slot?, path, slot?, List.getElem?_set]
  by_cases same : position = other
  · simp [same, same ▸ bound]
  · simp [same, Ne.symm same]

theorem contexts_cons (task : Task) (rest : List Task) (ctx : Context) :
    contexts g scope ((task :: rest).map Task.operator) ctx =
      (task.operator.slots g scope ctx).andThen fun slot =>
        (ctx.fill scope task.position task.element.name slot).andThen
          (contexts g scope (rest.map Task.operator)) := by
  rw [List.map_cons, contexts, Task.position_operator, Task.name_operator]

structure Context.Awaits (ctx : Context) (tasks : List Task) : Prop where
  distinct : (tasks.map Task.position).Nodup
  within : ∀ task ∈ tasks, task.position < ctx.path.length
  empty : ∀ task ∈ tasks, ctx.slot? task.position = none

theorem Context.Awaits.not_mem_positions (awaits : ctx.Awaits tasks) {i : Nat} {slot : Slot}
    (bound : ctx.slot? i = some slot) : i ∉ tasks.map Task.position := fun listed => by
  obtain ⟨task, mem, rfl⟩ := List.mem_map.mp listed
  rw [awaits.empty task mem] at bound
  cases bound

theorem Context.Awaits.fill {task : Task} {rest : List Task} (awaits : ctx.Awaits (task :: rest))
    {filled : Context} {slot : Slot}
    (path : filled.path = ctx.path.set task.position (some slot)) : filled.Awaits rest := by
  obtain ⟨apart, distinct⟩ := List.nodup_cons.mp awaits.distinct
  have within := awaits.within task List.mem_cons_self
  refine ⟨distinct, fun other listed => ?_, fun other listed => ?_⟩
  · rw [path, List.length_set]
    exact awaits.within other (List.mem_cons_of_mem _ listed)
  · rw [Context.slot?_set path within, if_neg]
    · exact awaits.empty other (List.mem_cons_of_mem _ listed)
    · exact fun same => apart (same ▸ List.mem_map_of_mem listed)

structure Completes (P : Element → Slot → Prop) (scope : Scope) (tasks : List Task)
    (ctx final : Context) : Prop where
  length : final.path.length = ctx.path.length
  others : ∀ i, i ∉ tasks.map Task.position → final.slot? i = ctx.slot? i
  found : ∀ task ∈ tasks, ∃ slot, final.slot? task.position = some slot ∧ P task.element slot ∧
    task.Stands final.slot? slot ∧ task.Names scope final.bindings.get? slot
  bindings : ∀ n v, final.bindings.get? n = some v ↔ ctx.bindings.get? n = some v ∨
    ∃ task ∈ tasks, task.element.name = some n ∧ ¬scope.Fixes n ∧
      ∃ slot, final.slot? task.position = some slot ∧ slot.value = v

variable {P : Element → Slot → Prop}

theorem Completes.cons {task : Task} {rest : List Task} {filled : Context} {slot : Slot}
    (awaits : ctx.Awaits (task :: rest)) (fits : P task.element slot)
    (stands : task.Stands ctx.slot? slot)
    (filled_mem : .ok filled ∈ ctx.fill scope task.position task.element.name slot)
    (later : Completes P scope rest filled final) : Completes P scope (task :: rest) ctx final := by
  have path := Context.path_of_mem_fill filled_mem
  obtain ⟨admitted, bindings⟩ := Context.of_mem_fill filled_mem
  have set := Context.slot?_set path (awaits.within task List.mem_cons_self)
  obtain ⟨apart, -⟩ := List.nodup_cons.mp awaits.distinct
  have here : final.slot? task.position = some slot := by
    rw [later.others _ apart, set, if_pos rfl]
  have kept (i : Nat) (outside : i ∉ (task :: rest).map Task.position) :
      final.slot? i = ctx.slot? i := by
    obtain ⟨ne, outside⟩ := not_or.mp (mt List.mem_cons.mpr outside)
    rw [later.others i outside, set, if_neg ne]
  refine ⟨?_, kept, ?_, ?_⟩
  · rw [later.length, path, List.length_set]
  · refine List.forall_mem_cons.mpr ⟨⟨slot, here, fits, ?_, ?_⟩, later.found⟩
    · refine stands.congr fun anchor _ _ beside bound => ?_
      rw [kept anchor (awaits.not_mem_positions bound), bound]
    · intro n named
      refine ⟨admitted n named, fun free => ?_⟩
      exact (later.bindings n _).mpr (.inl ((bindings n _).mpr (.inr ⟨named, free, rfl⟩)))
  · intro n v
    rw [later.bindings, bindings, or_assoc]
    refine or_congr_right ?_
    constructor
    · rintro (⟨named, free, rfl⟩ | ⟨other, listed, there⟩)
      · exact ⟨task, List.mem_cons_self, named, free, slot, here, rfl⟩
      · exact ⟨other, List.mem_cons_of_mem _ listed, there⟩
    · rintro ⟨other, listed, named, free, held, at_other, rfl⟩
      rcases List.mem_cons.mp listed with rfl | listed
      · rw [here] at at_other
        cases at_other
        exact .inl ⟨named, free, rfl⟩
      · exact .inr ⟨other, listed, named, free, held, at_other, rfl⟩

theorem completes_of_mem_contexts
    (fits : ∀ (task : Task) (ctx : Context) (slot : Slot),
      .ok slot ∈ task.operator.slots g scope ctx → P task.element slot) (awaits : ctx.Awaits tasks)
    (mem : .ok final ∈ contexts g scope (tasks.map Task.operator) ctx) :
    Completes P scope tasks ctx final := by
  induction tasks generalizing ctx with
  | nil =>
      cases List.mem_singleton.mp mem
      exact ⟨rfl, fun _ _ => rfl, by simp, by simp⟩
  | cons task rest ih =>
      rw [contexts_cons] at mem
      obtain ⟨slot, found, mem⟩ := Findings.ok_mem_andThen.mp mem
      obtain ⟨filled, filled_mem, mem⟩ := Findings.ok_mem_andThen.mp mem
      have later := ih (awaits.fill (Context.path_of_mem_fill filled_mem)) mem
      exact later.cons awaits (fits task ctx slot found) (Task.stands_of_mem_slots found) filled_mem

theorem exists_mem_contexts (h : g.Sound)
    (clean : (contexts g scope (tasks.map Task.operator) ctx).Clean) (awaits : ctx.Awaits tasks)
    {slotAt : Nat → Option Slot} {valueOf : String → Option BoundValue}
    (others : ∀ i, i ∉ tasks.map Task.position → slotAt i = ctx.slot? i)
    (asks : ∀ task ∈ tasks, ∃ slot, slotAt task.position = some slot ∧
      task.Asks g slotAt slot ∧ task.Names scope valueOf slot)
    (bindings : ∀ n v, ctx.bindings.get? n = some v → valueOf n = some v) :
    ∃ final, .ok final ∈ contexts g scope (tasks.map Task.operator) ctx ∧
      ∀ i, final.slot? i = slotAt i := by
  -- The context holds the slots asked for at every position but those of the tasks that are left.
  induction tasks generalizing ctx with
  | nil => exact ⟨ctx, List.mem_singleton_self _, fun i => (others i List.not_mem_nil).symm⟩
  | cons task rest ih =>
      rw [contexts_cons] at clean ⊢
      obtain ⟨slot, here, asks_here, names⟩ := asks task List.mem_cons_self
      have within := awaits.within task List.mem_cons_self
      have found : .ok slot ∈ task.operator.slots g scope ctx := by
        refine Task.mem_slots h clean.of_andThen ⟨asks_here.1, Task.Stands.congr asks_here.2 ?_⟩
          fun n named => (names n named).1
        intro anchor forward beside there at_anchor
        obtain ⟨bound, bound_eq⟩ := Task.anchor_bound clean.of_andThen beside
        rw [← others anchor (awaits.not_mem_positions bound_eq), at_anchor]
      obtain ⟨filled, filled_mem⟩ : ∃ filled,
          .ok filled ∈ ctx.fill scope task.position task.element.name slot :=
        Context.exists_mem_fill within (fun n named => (names n named).1) fun n v named free held =>
          Option.some.inj ((bindings n v held).symm.trans ((names n named).2 free))
      have path := Context.path_of_mem_fill filled_mem
      have set := Context.slot?_set path within
      have others_filled : ∀ i, i ∉ rest.map Task.position → slotAt i = filled.slot? i := by
        intro i outside
        rw [set]
        split
        · rename_i same
          rw [same, here]
        · rename_i ne
          exact others i fun listed => (List.mem_cons.mp listed).elim ne outside
      have bindings_filled : ∀ n v, filled.bindings.get? n = some v → valueOf n = some v := by
        intro n v held
        rcases ((Context.of_mem_fill filled_mem).2 n v).mp held with held | ⟨named, free, rfl⟩
        · exact bindings n v held
        · exact (names n named).2 free
      obtain ⟨final, mem, same⟩ := ih ((clean.each found).each filled_mem) (awaits.fill path)
        others_filled (fun other listed => asks other (List.mem_cons_of_mem _ listed))
        bindings_filled
      exact ⟨final, Findings.ok_mem_andThen.mpr ⟨slot, found,
        Findings.ok_mem_andThen.mpr ⟨filled, filled_mem, mem⟩⟩, same⟩

theorem slot?_of_mem_contexts {task : Task} {rest : List Task}
    (awaits : ctx.Awaits (task :: rest)) {filled : Context} {slot : Slot}
    (filled_mem : .ok filled ∈ ctx.fill scope task.position task.element.name slot)
    (mem : .ok final ∈ contexts g scope (rest.map Task.operator) filled) :
    final.slot? task.position = some slot := by
  have path := Context.path_of_mem_fill filled_mem
  obtain ⟨apart, -⟩ := List.nodup_cons.mp awaits.distinct
  have later := completes_of_mem_contexts (P := fun _ _ => True) (fun _ _ _ _ => trivial)
    (awaits.fill path) mem
  have within := awaits.within task List.mem_cons_self
  rw [later.others _ apart, Context.slot?_set path within, if_pos rfl]

theorem eq_of_mem_contexts (awaits : ctx.Awaits tasks)
    {other : Context} (mem : .ok final ∈ contexts g scope (tasks.map Task.operator) ctx)
    (other_mem : .ok other ∈ contexts g scope (tasks.map Task.operator) ctx)
    (same : ∀ i, final.slot? i = other.slot? i) : final = other := by
  induction tasks generalizing ctx with
  | nil =>
      cases List.mem_singleton.mp mem
      cases List.mem_singleton.mp other_mem
      rfl
  | cons task rest ih =>
      rw [contexts_cons] at mem other_mem
      obtain ⟨a, -, mem⟩ := Findings.ok_mem_andThen.mp mem
      obtain ⟨filled, filled_mem, mem⟩ := Findings.ok_mem_andThen.mp mem
      obtain ⟨b, -, other_mem⟩ := Findings.ok_mem_andThen.mp other_mem
      obtain ⟨filled', filled_mem', other_mem⟩ := Findings.ok_mem_andThen.mp other_mem
      have at_a := slot?_of_mem_contexts awaits filled_mem mem
      have at_b := slot?_of_mem_contexts awaits filled_mem' other_mem
      rw [same, at_b] at at_a
      cases at_a
      cases Context.eq_of_mem_fill filled_mem filled_mem'
      exact ih (awaits.fill (Context.path_of_mem_fill filled_mem)) mem other_mem

theorem nodup_contexts (h : g.Sound)
    (clean : (contexts g scope (tasks.map Task.operator) ctx).Clean) (awaits : ctx.Awaits tasks) :
    (contexts g scope (tasks.map Task.operator) ctx).Nodup := by
  induction tasks generalizing ctx with
  | nil => exact List.nodup_singleton _
  | cons task rest ih =>
      rw [contexts_cons] at clean ⊢
      refine Findings.nodup_andThen clean.of_andThen (Task.nodup_slots h clean.of_andThen)
        (fun slot found => ?_) ?_
      · refine Findings.nodup_andThen (clean.each found).of_andThen (Context.nodup_fill _ _ _ _ _)
          (fun filled filled_mem => ?_) fun a b _ mem_a mem_b _ _ => Context.eq_of_mem_fill mem_a mem_b
        exact ih ((clean.each found).each filled_mem)
          (awaits.fill (Context.path_of_mem_fill filled_mem))
      · intro a b item found_a found_b in_a in_b
        cases item with
        | error e => exact absurd in_a (clean.each found_a e)
        | ok final =>
            obtain ⟨filled, filled_mem, mem⟩ := Findings.ok_mem_andThen.mp in_a
            obtain ⟨filled', filled_mem', mem'⟩ := Findings.ok_mem_andThen.mp in_b
            have at_a := slot?_of_mem_contexts awaits filled_mem mem
            have at_b := slot?_of_mem_contexts awaits filled_mem' mem'
            exact Option.some.inj (at_a.symm.trans at_b)

end Contexts

end PropertyGraph
