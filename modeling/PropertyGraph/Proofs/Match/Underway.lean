import PropertyGraph.Proofs.Match.Suiting

/-!
Runs on their way. Where every name has one kind, what is bound has the kind of its element, and the
positions come in an order in which each finds its neighbour bound; so the steps of a plan fail only
at values that cannot be compared.
-/

namespace PropertyGraph

section Checks

theorem Scope.kind_of_checkKinds? {scope : Scope} {elements : List Element}
    (ok : scope.checkKinds? elements = .ok ()) {element : Element} (mem : element ∈ elements)
    {n : String} (named : element.name = some n) {kind : VariableKind}
    (known : scope.kind? n = some kind) : kind = element.kind := by
  induction elements with
  | nil => cases mem
  | cons first rest ih =>
      rw [checkKinds?] at ok
      split at ok
      · rename_i unknown
        rcases List.mem_cons.mp mem with rfl | mem
        · simp [named, known] at unknown
        · exact ih ok mem
      · rename_i name kind' looked_up
        split at ok
        · rename_i same
          rcases List.mem_cons.mp mem with rfl | mem
          · simp only [named, Option.bind_some, known, Option.map_some, Option.some.injEq,
              Prod.mk.injEq] at looked_up
            exact looked_up.2.trans same
          · exact ih ok mem
        · cases ok

end Checks

namespace Context

variable {ctx : Context} {scope : Scope} {kindOf : String → VariableKind}

structure Typed (ctx : Context) (p : PathPattern) (kindOf : String → VariableKind) : Prop where
  slots : ∀ i slot, ctx.slot? i = some slot →
    ∃ element, p.elements[i]? = some element ∧ slot.kind = element.kind
  bindings : ∀ n v, ctx.bindings.get? n = some v → v.kind = kindOf n

theorem verdict?_ne_error {n : String} {slot : Slot}
    (outside : ∀ kind, scope.kind? n = some kind → kind = slot.kind)
    (inside : ∀ v, ctx.bindings.get? n = some v → v.kind = slot.kind) (e : MatchError) :
    ctx.verdict? scope n slot ≠ .error e := by
  have weighed {found : VariableKind} (same : found = slot.kind) (fits : Bool) :
      slot.weigh? n found fits ≠ .error e := by
    simp [Slot.weigh?, same]
  rw [Scope.kind?] at outside
  rw [verdict?]
  split
  · rename_i value pinned
    rw [pinned] at outside
    exact weighed (outside _ rfl) _
  · rename_i unpinned
    rw [unpinned] at outside
    split
    · rename_i symbol found
      rw [found] at outside
      exact weighed (outside _ rfl) _
    · split
      · rename_i value bound
        exact weighed (inside value bound) _
      · simp

theorem error_not_mem_fill {name : Option String} {slot : Slot} {position : Nat}
    (within : position < ctx.path.length)
    (outside : ∀ n, name = some n → ∀ kind, scope.kind? n = some kind → kind = slot.kind)
    (inside : ∀ n, name = some n → ∀ v, ctx.bindings.get? n = some v → v.kind = slot.kind)
    (e : MatchError) : .error e ∉ ctx.fill scope position name slot := by
  cases name with
  | none => simp [fill, place, put_within within]
  | some n =>
      have no_error := verdict?_ne_error (outside n rfl) (inside n rfl)
      cases weighed : ctx.verdict? scope n slot with
      | error e' => exact absurd weighed (no_error e')
      | ok verdict => cases verdict <;> simp [fill, place, weighed, put_within within]

end Context

namespace PathPattern

variable {p : PathPattern} {g : Graph} {scope : Scope} {kindOf : String → VariableKind}
  {pivot : Nat} {tasks : List Task} {ctx : Context}

theorem kind_of_getElem? {i : Nat} {element : Element} (there : p.elements[i]? = some element) :
    element.kind = if i % 2 = 0 then .node else .edges := by
  rw [← element?_eq, element?] at there
  split at there
  · rename_i zero
    cases there
    rw [zero]
    rfl
  · obtain ⟨segment, -, rfl⟩ := Option.map_eq_some_iff.mp there
    split
    · rename_i odd
      rw [if_neg (by omega)]
      rfl
    · rename_i even
      rw [if_pos (by omega)]
      rfl

/-- A run on its way: its tasks are those of the positions that are not bound, and none of them stands
beside a position whose task comes after it. -/
structure Underway (p : PathPattern) (kindOf : String → VariableKind) (pivot : Nat)
    (tasks : List Task) (ctx : Context) : Prop where
  typed : ctx.Typed p kindOf
  awaits : ctx.Awaits tasks
  left : ∀ i, i < p.length → ctx.slot? i = none → i ∈ tasks.map Task.position
  ordered : tasks.Pairwise fun a b => ∀ anchor forward, a.beside = some (anchor, forward) →
    anchor ≠ b.position
  element : ∀ task ∈ tasks, p.elements[task.position]? = some task.element
  side : ∀ task ∈ tasks, task.beside = PathPattern.side pivot task.position

theorem Covers.ordered (covers : p.Covers pivot tasks) :
    tasks.Pairwise fun a b => ∀ anchor forward, a.beside = some (anchor, forward) →
      anchor ≠ b.position := by
  have apart : (tasks.map Task.position).Pairwise fun i j => ∀ anchor forward,
      PathPattern.side pivot i = some (anchor, forward) → anchor ≠ j := by
    rw [covers.positions, List.pairwise_cons, List.pairwise_append]
    refine ⟨fun j _ anchor forward eq => ?_, ?_, ?_, fun i right j left anchor forward eq => ?_⟩
    · simp [PathPattern.side] at eq
    · refine List.Pairwise.imp_of_mem (R := (· < ·)) (fun {i j} right _ less anchor forward eq => ?_)
        (List.pairwise_lt_range.map _ fun a b less => Nat.add_lt_add_left less _)
      have after := (mem_rightOf.mp right).1
      rw [PathPattern.side, if_neg (by omega), if_pos after] at eq
      cases eq
      omega
    · refine List.Pairwise.imp_of_mem (R := (· > ·)) (fun {i j} left _ less anchor forward eq => ?_)
        (List.pairwise_reverse.mpr List.pairwise_lt_range)
      have before := mem_leftOf.mp left
      rw [PathPattern.side, if_neg (by omega), if_neg (by omega)] at eq
      cases eq
      omega
    · have after := (mem_rightOf.mp right).1
      have before := mem_leftOf.mp left
      rw [PathPattern.side, if_neg (by omega), if_pos after] at eq
      cases eq
      omega
  refine (List.pairwise_map.mp apart).imp_of_mem fun {a b} mem _ apart anchor forward eq => ?_
  rw [covers.side a mem] at eq
  exact apart anchor forward eq

theorem Covers.underway (covers : p.Covers pivot tasks) (bound : pivot < p.length)
    (kindOf : String → VariableKind) : p.Underway kindOf pivot tasks (.empty p.length) where
  typed := by
    refine ⟨fun i slot there => ?_, fun n v held => by cases held⟩
    rw [Context.slot?, Context.empty, List.getElem?_replicate] at there
    split at there <;> cases there
  awaits := covers.awaits bound
  left := fun i within _ => (covers.mem_positions bound).mpr within
  ordered := covers.ordered
  element := covers.element
  side := covers.side

theorem Underway.anchored {task : Task} {rest : List Task} (bound : pivot < p.length)
    (underway : p.Underway kindOf pivot (task :: rest) ctx) : task.Anchored ctx := by
  intro anchor forward beside
  have at_task := underway.element task List.mem_cons_self
  have within : task.position < p.length := by
    rw [← length_elements]
    exact (List.getElem?_eq_some_iff.mp at_task).1
  have neighbour : anchor < p.length ∧ anchor ≠ task.position ∧
      anchor % 2 ≠ task.position % 2 := by
    have side := beside
    rw [underway.side task List.mem_cons_self, PathPattern.side] at side
    split at side
    · cases side
    · split at side <;> (cases side; omega)
  obtain ⟨anchor_within, apart, parity⟩ := neighbour
  cases held : ctx.slot? anchor with
  | none =>
      obtain ⟨ordered, -⟩ := List.pairwise_cons.mp underway.ordered
      rcases List.mem_cons.mp (underway.left anchor anchor_within held) with here | later
      · exact absurd here apart
      · obtain ⟨other, listed, same⟩ := List.mem_map.mp later
        exact absurd same.symm (ordered other listed anchor forward beside)
  | some slot =>
      refine ⟨slot, rfl, fun same => ?_⟩
      obtain ⟨element, at_anchor, kind⟩ := underway.typed.slots anchor slot held
      rw [kind, kind_of_getElem? at_anchor, kind_of_getElem? at_task] at same
      split at same <;> split at same <;> first | omega | cases same

theorem Underway.fill {task : Task} {rest : List Task}
    (underway : p.Underway kindOf pivot (task :: rest) ctx)
    (names : ∀ n, task.element.name = some n → kindOf n = task.element.kind) {slot : Slot}
    (kind : slot.kind = task.element.kind) {filled : Context}
    (mem : .ok filled ∈ ctx.fill scope task.position task.element.name slot) :
    p.Underway kindOf pivot rest filled := by
  have path := Context.path_of_mem_fill mem
  have set := Context.slot?_set path (underway.awaits.within task List.mem_cons_self)
  refine ⟨⟨fun i other there => ?_, fun n v held => ?_⟩, underway.awaits.fill path,
    fun i within free => ?_, (List.pairwise_cons.mp underway.ordered).2,
    fun other listed => underway.element other (List.mem_cons_of_mem _ listed),
    fun other listed => underway.side other (List.mem_cons_of_mem _ listed)⟩
  · rw [set] at there
    split at there
    · rename_i same
      cases there
      exact ⟨task.element, same ▸ underway.element task List.mem_cons_self, kind⟩
    · exact underway.typed.slots i other there
  · rcases ((Context.of_mem_fill mem).2 n v).mp held with held | ⟨named, -, rfl⟩
    · exact underway.typed.bindings n v held
    · rw [slot.kind_value, kind, names n named]
  · rw [set] at free
    split at free
    · cases free
    · rename_i apart
      exact (List.mem_cons.mp (underway.left i within free)).resolve_left apart

theorem Underway.onlyIncomparable (bound : pivot < p.length)
    (underway : p.Underway kindOf pivot tasks ctx)
    (names : ∀ element ∈ p.elements, ∀ n, element.name = some n → kindOf n = element.kind)
    (outside : ∀ element ∈ p.elements, ∀ n, element.name = some n →
      ∀ kind, scope.kind? n = some kind → kind = element.kind) :
    (contexts g scope (tasks.map Task.operator) ctx).OnlyIncomparable := by
  -- Each task finds what it stands beside bound, and leaves a slot of its own kind behind.
  induction tasks generalizing ctx with
  | nil => exact Findings.onlyIncomparable_map_ok [ctx]
  | cons task rest ih =>
      have there := List.mem_of_getElem? (underway.element task List.mem_cons_self)
      rw [contexts_cons]
      refine (Task.onlyIncomparable_slots (underway.anchored bound)).andThen fun slot found => ?_
      have kind := (Task.suits_of_mem_slots found).kind
      refine Findings.OnlyIncomparable.andThen (fun e failed => ?_) fun filled mem => ?_
      · have within := underway.awaits.within task List.mem_cons_self
        refine absurd failed (Context.error_not_mem_fill within (fun n named k known => ?_)
          (fun n named v held => ?_) e)
        · rw [kind, outside task.element there n named k known]
        · rw [underway.typed.bindings n v held, names task.element there n named, kind]
      · exact ih (underway.fill (names task.element there) kind mem)

end PathPattern

end PropertyGraph
