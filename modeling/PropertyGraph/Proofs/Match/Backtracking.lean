import PropertyGraph.Proofs.Match.Exactness
import PropertyGraph.Proofs.Match.Underway

/-!
Backtracking. Bindings are undone in the reverse of the order in which they were made, so that
bindings and releases that pair up leave the context as it was. A run of a plan therefore ends with
nothing bound, and its visitor is called where every position is bound and nowhere else.
-/

namespace PropertyGraph

/-- Bindings at empty positions with their releases, well nested; a binding that does not come about
has no release. -/
inductive Nests (scope : Scope) : Context → Context → Prop
  | done (ctx : Context) : Nests scope ctx ctx
  | declined {ctx last : Context} {position : Nat} {name : Option String} {slot : Slot} :
      (∀ receipt, (ctx.place scope position name slot).2 ≠ .ok (some receipt)) →
        Nests scope (ctx.place scope position name slot).1 last → Nests scope ctx last
  | released {ctx filled inner last : Context} {position : Nat} {name : Option String}
      {slot : Slot} {receipt : Receipt} :
      ctx.slot? position = none →
        ctx.place scope position name slot = (filled, .ok (some receipt)) →
          Nests scope filled inner → Nests scope (inner.release receipt) last → Nests scope ctx last

section Context

variable {scope : Scope} {ctx : Context}

theorem Context.place_declined {position : Nat} {name : Option String} {slot : Slot}
    (declined : ∀ receipt, (ctx.place scope position name slot).2 ≠ .ok (some receipt)) :
    (ctx.place scope position name slot).1 = ctx := by
  rcases ctx.place_cases scope position name slot with
    ⟨e, placed⟩ | ⟨placed, -⟩ | ⟨placed, -⟩ | ⟨n, -, -, placed⟩ <;> rw [placed] at declined ⊢
  · exact absurd rfl (declined _)
  · exact absurd rfl (declined _)

theorem Context.release_of_place {filled : Context} {position : Nat} {name : Option String}
    {slot : Slot} {receipt : Receipt} (empty : ctx.slot? position = none)
    (placed : ctx.place scope position name slot = (filled, .ok (some receipt))) :
    filled.release receipt = ctx := by
  have restored := Context.release_place scope name slot empty
  rwa [placed] at restored

theorem Nests.restores {last : Context} (nests : Nests scope ctx last) : last = ctx := by
  induction nests with
  | done ctx => rfl
  | declined declined _ ih => exact ih.trans (Context.place_declined declined)
  | released empty placed _ _ inner_ih last_ih =>
      rw [last_ih, inner_ih]
      exact Context.release_of_place empty placed

end Context

/-- Every position holds a slot of its element's kind, the edges lead from the node before them to
the node after them, and just the names that have no value from outside are bound. -/
structure PathPattern.Filled (p : PathPattern) (scope : Scope) (ctx : Context) : Prop where
  kinds : List.Forall₂ (fun element slot => slot.map Slot.kind = some element.kind) p.elements
    ctx.path
  ends (i : Nat) (ids : List EdgeId) (left right : NodeId) :
    ctx.slot? i = some (.edges ids left right) → ∃ before, i = before + 1 ∧
      ctx.slot? before = some (.node left) ∧ ctx.slot? (i + 1) = some (.node right)
  names (n : String) : n ∈ ctx.bindings.keys ↔ n ∈ p.names ∧ ¬scope.Fixes n

section Slots

variable {p : PathPattern} {slots : List Slot}

theorem Slot.Meets.eq_left {slot : Slot} {ids : List EdgeId} {left right : NodeId}
    (meets : slot.Meets (.edges ids left right)) : slot = .node left := by
  cases slot with
  | node id => exact congrArg Slot.node meets.symm
  | edges ids' left' right' => cases meets

theorem Slot.Meets.eq_right {slot : Slot} {ids : List EdgeId} {left right : NodeId}
    (meets : (Slot.edges ids left right).Meets slot) : slot = .node right := by
  cases slot with
  | node id => exact congrArg Slot.node meets.symm
  | edges ids' left' right' => cases meets

theorem PathPattern.nodes_beside
    (kinds : List.Forall₂ (fun element slot => slot.kind = element.kind) p.elements slots)
    (meets : slots.IsChain Slot.Meets) {i : Nat} {ids : List EdgeId} {left right : NodeId}
    (there : slots[i]? = some (.edges ids left right)) : ∃ before, i = before + 1 ∧
      slots[before]? = some (.node left) ∧ slots[i + 1]? = some (.node right) := by
  obtain ⟨length, same⟩ := forall₂_iff_getElem?.mp kinds
  have meets := isChain_iff_getElem?.mp meets
  obtain ⟨within, -⟩ := List.getElem?_eq_some_iff.mp there
  -- Edges stand at odd positions, and so between two nodes.
  have odd : i % 2 = 1 := by
    have at_i := List.getElem?_eq_getElem (length ▸ within : i < p.elements.length)
    have kind := kind_of_getElem? at_i
    rw [← same i _ _ at_i there, Slot.kind] at kind
    split at kind
    · cases kind
    · omega
  have last : i + 1 < slots.length := by
    rw [length_elements, PathPattern.length] at length
    omega
  obtain ⟨before, rfl⟩ := Nat.exists_eq_add_one_of_ne_zero (n := i) (by omega)
  have at_before := List.getElem?_eq_getElem (Nat.lt_of_succ_lt within)
  have at_after := List.getElem?_eq_getElem last
  refine ⟨before, rfl, ?_, ?_⟩
  · rw [at_before, (meets _ _ _ at_before there).eq_left]
  · rw [at_after, (meets _ _ _ there at_after).eq_right]

end Slots

namespace PathPattern

variable {p : PathPattern} {g : Graph} {scope : Scope} {pivot : Option Nat} {plan : Plan}

theorem filled_of_mem_contexts (planned : p.plan? g scope pivot = .ok plan) {ctx : Context}
    (mem : .ok ctx ∈ contexts g scope plan.steps (.empty p.length)) : p.Filled scope ctx := by
  obtain ⟨start, bound, tasks, steps, covers⟩ := plan?_eq_ok planned
  rw [steps] at mem
  have completes := completes_of_mem_contexts (fun _ _ _ => Task.suits_of_mem_slots)
    (covers.awaits bound) mem
  obtain ⟨slots, full, length, suits, meets⟩ := covers.exists_slots bound completes
  have kinds : List.Forall₂ (fun element slot => slot.kind = element.kind) p.elements slots :=
    suits.imp fun _ _ suits => suits.kind
  refine ⟨?_, fun i ids left right there => ?_, fun n => ?_⟩
  · rw [full, List.forall₂_map_right_iff]
    exact kinds.imp fun _ _ same => congrArg some same
  · simp only [Context.slot?_of_full full] at there ⊢
    exact nodes_beside kinds meets there
  · have values : (slots.map Slot.value).length = p.length := by rwa [List.length_map]
    rw [InsertionMap.mem_keys, mem_names values]
    simp only [covers.get?_bindings bound completes full, exists_and_right]

end PathPattern

section Noting

variable {σ : Type}

def noting (sink : Visit (Progress σ)) : Visit (Progress (List Context × σ)) := fun progress =>
  let (seen, gathered) := progress.gathered
  let (after, outcome) := sink ⟨progress.context, gathered⟩
  (⟨after.context, seen ++ [progress.context], after.gathered⟩, outcome)

def report (sink : Visit (Progress σ)) (ctx : Context) : Visit σ := fun gathered =>
  let (after, outcome) := sink ⟨ctx, gathered⟩
  (after.gathered, outcome)

def noted {α : Type} (visit : α → Visit σ) (a : α) : Visit (List α × σ) := fun (seen, s) =>
  let (s, outcome) := visit a s
  ((seen ++ [a], s), outcome)

theorem visitEach_noted {α : Type} (visit : α → Visit σ) (findings : Findings α) (seen : List α)
    (s : σ) : ∃ visited : List α, (∀ a ∈ visited, .ok a ∈ findings) ∧
      visitEach (noted visit) findings (seen, s) =
        ((seen ++ visited, (visitEach visit findings s).1), (visitEach visit findings s).2) := by
  induction findings generalizing seen s with
  | nil => exact ⟨[], by simp, by simp [visitEach, visitAll]⟩
  | cons item rest ih =>
      cases item with
      | error e => exact ⟨[], by simp, by simp [visitEach, visitAll]⟩
      | ok a =>
          rw [visitEach_cons_ok, visitEach_cons_ok, noted]
          rcases visit a s with ⟨s', _ | _ | e⟩
          · obtain ⟨visited, found, eq⟩ := ih (seen ++ [a]) s'
            refine ⟨a :: visited, List.forall_mem_cons.mpr ⟨List.mem_cons_self, fun b mem =>
              List.mem_cons_of_mem _ (found b mem)⟩, ?_⟩
            simpa using eq
          · exact ⟨[a], by simp, rfl⟩
          · exact ⟨[a], by simp, rfl⟩

variable {sink : Visit (Progress σ)}

theorem eq_endsIn_report (restores : ∀ progress, (sink progress).1.context = progress.context)
    (ctx : Context) (s : σ) : sink ⟨ctx, s⟩ = endsIn ctx (report sink ctx s) := by
  have restored := restores ⟨ctx, s⟩
  rw [report, endsIn]
  generalize sink ⟨ctx, s⟩ = ended at restored ⊢
  obtain ⟨⟨after, gathered⟩, outcome⟩ := ended
  cases restored
  rfl

theorem noting_eq_endsIn (restores : ∀ progress, (sink progress).1.context = progress.context)
    (ctx : Context) (s : List Context × σ) :
    noting sink ⟨ctx, s⟩ = endsIn ctx (noted (report sink) ctx s) := by
  obtain ⟨seen, gathered⟩ := s
  simp only [noting, eq_endsIn_report restores ctx gathered]
  rfl

end Noting

theorem backtracking_restores (scope : Scope) :
    (∀ (ctx : Context) (position : Nat) (name : Option String) (slot : Slot),
      (∀ receipt, (ctx.place scope position name slot).2 ≠ .ok (some receipt)) →
        (ctx.place scope position name slot).1 = ctx) ∧
    (∀ (ctx filled inner : Context) (position : Nat) (name : Option String) (slot : Slot)
      (receipt : Receipt), ctx.slot? position = none →
        ctx.place scope position name slot = (filled, .ok (some receipt)) →
          Nests scope filled inner → inner.release receipt = ctx) ∧
    ∀ (p : PathPattern) (g : Graph) (pivot : Option Nat) (plan : Plan),
      p.plan? g scope pivot = .ok plan → ∀ {σ : Type} (sink : Visit (Progress σ)),
        (∀ progress, (sink progress).1.context = progress.context) → ∀ state : σ,
          let ended := plan.execute g scope sink ⟨.empty p.length, state⟩
          let watched := plan.execute g scope (noting sink) ⟨.empty p.length, [], state⟩
          ended.1.context = .empty p.length ∧
            ended = (⟨watched.1.context, watched.1.gathered.2⟩, watched.2) ∧
            ∀ ctx ∈ watched.1.gathered.1, p.Filled scope ctx := by
  refine ⟨fun ctx position name slot => Context.place_declined,
    fun ctx filled inner position name slot receipt empty placed nests => ?_,
    fun p g pivot plan planned σ sink restores state => ?_⟩
  · rw [nests.restores]
    exact Context.release_of_place empty placed
  · have plain := PathPattern.execute_eq planned (eq_endsIn_report restores) state
    have traced := PathPattern.execute_eq planned (noting_eq_endsIn restores) ([], state)
    obtain ⟨visited, found, same⟩ := visitEach_noted (report sink)
      (contexts g scope plan.steps (.empty p.length)) [] state
    rw [same] at traced
    dsimp only
    rw [plain, traced]
    refine ⟨rfl, rfl, fun ctx mem => ?_⟩
    exact PathPattern.filled_of_mem_contexts planned (found ctx mem)

section Hop

open PathPattern (hop)

def hopPlan : Plan where
  pivot := 0
  steps := [.nodeScan 0 (.named .any "x"), .expandEdge 1 0 true (.any .both),
    .edgeEndpoint 2 1 true (.named .any "y")]

theorem backtracking_restores_hop :
    let scope : Scope := ⟨∅, ∅⟩
    let filled : Context := ⟨.ofList [("x", .node ⟨0⟩)], [some (.node ⟨0⟩), none, none]⟩
    let further : Context := ⟨.ofList [("x", .node ⟨0⟩), ("y", .node ⟨1⟩)],
      [some (.node ⟨0⟩), none, some (.node ⟨1⟩)]⟩
    let sink := hop.emit Collector.rows
    let noted :=
      (hopPlan.execute .pair scope (noting sink) ⟨.empty hop.length, [], []⟩).1.gathered.1
    ((filled.place scope 2 (some "x") (.node ⟨1⟩)).2 = .ok none ∧
      (filled.place scope 2 (some "x") (.node ⟨1⟩)).1 = filled) ∧
    ((Context.empty 3).slot? 0 = none ∧
      (Context.empty 3).place scope 0 (some "x") (.node ⟨0⟩) = (filled, .ok (some ⟨0, true⟩)) ∧
      Nests scope filled (further.release ⟨2, true⟩) ∧
      (further.release ⟨2, true⟩).release ⟨0, true⟩ = .empty 3) ∧
    hop.plan? .pair scope (some 0) = .ok hopPlan ∧
      (∀ progress, (sink progress).1.context = progress.context) ∧
      (hopPlan.execute .pair scope sink ⟨.empty hop.length, []⟩).1.context = .empty hop.length ∧
      noted = [⟨.ofList [("x", .node ⟨0⟩), ("y", .node ⟨1⟩)],
          [some (.node ⟨0⟩), some (.edges [⟨0⟩] ⟨0⟩ ⟨1⟩), some (.node ⟨1⟩)]⟩,
        ⟨.ofList [("x", .node ⟨1⟩), ("y", .node ⟨0⟩)],
          [some (.node ⟨1⟩), some (.edges [⟨0⟩] ⟨1⟩ ⟨0⟩), some (.node ⟨0⟩)]⟩] ∧
      ∀ ctx ∈ noted, hop.Filled scope ctx := by
  intro scope filled further sink noted
  have refused : (filled.place scope 2 (some "x") (.node ⟨1⟩)).2 = .ok none := by decide
  have declined (receipt : Receipt) :
      (filled.place scope 2 (some "x") (.node ⟨1⟩)).2 ≠ .ok (some receipt) := by simp [refused]
  have first : (Context.empty 3).place scope 0 (some "x") (.node ⟨0⟩) =
      (filled, .ok (some ⟨0, true⟩)) := by decide
  have second : filled.place scope 2 (some "y") (.node ⟨1⟩) =
      (further, .ok (some ⟨2, true⟩)) := by decide
  have nests : Nests scope filled (further.release ⟨2, true⟩) :=
    .released rfl second (.done _) (.done _)
  have planned : hop.plan? .pair scope (some 0) = .ok hopPlan := by decide
  obtain ⟨unplaced, released, runs⟩ := backtracking_restores scope
  obtain ⟨emptied, -, full⟩ := runs _ _ _ _ planned sink (fun _ => rfl) []
  exact ⟨⟨refused, unplaced _ _ _ _ declined⟩,
    ⟨rfl, first, nests, released _ _ _ _ _ _ _ rfl first nests⟩, planned, fun _ => rfl,
    emptied, by decide, full⟩

end Hop

end PropertyGraph
