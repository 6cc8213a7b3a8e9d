import PropertyGraph.Match.Run
import PropertyGraph.Proofs.Match.Enumeration
import PropertyGraph.Proofs.Match.Verdicts

/-!
A run as the visit of its full contexts. Each step of a plan finds slots for its position, and each
slot that its name allows leads to another context; binding and undoing leaves the context of the
search as it was, whatever the visitor answers.
-/

namespace PropertyGraph

namespace Operator

def name : Operator → Option String
  | .nodeScan _ node => node.name
  | .edgeScan _ edge => edge.name
  | .expandEdge _ _ _ edge => edge.name
  | .edgeEndpoint _ _ _ node => node.name
  | .varLengthExpand _ _ _ edge => edge.name

def scanNodes (g : Graph) (scope : Scope) (node : NodePattern) : Findings Slot :=
  match g.selectNodes? node.filter with
  | .error e => [.error (.incomparable e)]
  | .ok selection =>
      (Findings.ofFound (scanItems selection (scope.knownNodes? node.name)
        (g.siftNodes node.filter))).map (Except.map .node)

def orientedSlots (g : Graph) (edge : EdgePattern) (id : EdgeId) : List Slot :=
  match g.edge? id with
  | none => []
  | some record =>
      (orientations record.source record.target edge.direction).map fun ends =>
        .edges [id] ends.1 ends.2

def scanEdges (g : Graph) (scope : Scope) (edge : EdgePattern) : Findings Slot :=
  match g.selectEdges? edge.filter with
  | .error e => [.error (.incomparable e)]
  | .ok selection =>
      (Findings.ofFound (scanItems selection (scope.knownEdges? edge.name)
        (g.siftEdges edge.filter))).andThen fun id => (orientedSlots g edge id).map .ok

/-- The single edges beside a node, which is on their left when `forward` says so. -/
def stepSlots (g : Graph) (forward : Bool) (edge : EdgePattern) (near : NodeId) : Findings Slot :=
  match g.store.expand? near (edge.direction.fromSide forward) edge.filter with
  | .error e => [.error (.incomparable e)]
  | .ok steps => (steps.map fun (id, far) =>
      if forward then Slot.edges [id] near far else .edges [id] far near).map .ok

def endpointSlots (g : Graph) (node : NodePattern) (id : NodeId) : Findings Slot :=
  (Findings.ofFound (g.siftNodes node.filter [id])).map (Except.map .node)

def pathSlots (g : Graph) (forward : Bool) (edge : EdgePattern) (start : NodeId) : Findings Slot :=
  let origin : WalkOrigin := if forward then .start else .finish
  ((Trail.ofStart origin start).finds g.store (edge.direction.fromSide forward) edge.filter
    edge.length origin).map (Except.map fun path =>
      if forward then .edges path.1 start path.2 else .edges path.1.reverse path.2 start)

def slots (g : Graph) (scope : Scope) (ctx : Context) : Operator → Findings Slot
  | .nodeScan _ node => scanNodes g scope node
  | .edgeScan _ edge => scanEdges g scope edge
  | .expandEdge _ anchor forward edge =>
      match ctx.anchorNode? anchor with
      | .error e => [.error e]
      | .ok near => stepSlots g forward edge near
  | .edgeEndpoint _ anchor forward node =>
      match ctx.anchorEnds? anchor with
      | .error e => [.error e]
      | .ok (left, right) => endpointSlots g node (if forward then right else left)
  | .varLengthExpand _ none forward edge => g.store.nodeIds.flatMap (pathSlots g forward edge)
  | .varLengthExpand _ (some anchor) forward edge =>
      match ctx.anchorNode? anchor with
      | .error e => [.error e]
      | .ok start => pathSlots g forward edge start

section Run

variable {σ : Type} (g : Graph) (scope : Scope) (next : Visit (Progress σ))

theorem visitPaths_eq (position : Nat) (forward : Bool) (edge : EdgePattern) (start : NodeId)
    (progress : Progress σ) : visitPaths g scope position forward edge next start progress =
      visitEach (visitSlot scope position edge.name next) (pathSlots g forward edge start)
        progress := by
  rw [pathSlots, visitEach_map, visitPaths, Trail.enumeratePaths_eq]

theorem visitEdge_eq (position : Nat) (edge : EdgePattern) (id : EdgeId)
    (progress : Progress σ) : visitEdge g scope position edge next id progress =
      visitEach (visitSlot scope position edge.name next) ((orientedSlots g edge id).map .ok)
        progress := by
  rw [visitEdge, visitEach_ok, orientedSlots]
  cases g.edge? id with
  | none => rfl
  | some record => rw [visitAll_map]

theorem run_eq_visitEach (operator : Operator) (progress : Progress σ) :
    operator.run g scope next progress =
      visitEach (visitSlot scope operator.position operator.name next)
        (operator.slots g scope progress.context) progress := by
  cases operator with
  | nodeScan position node =>
      rw [run, runNodeScan, slots, scanNodes]
      cases g.selectNodes? node.filter with
      | error e => rfl
      | ok selection =>
          dsimp only
          rw [visitFound_eq, visitEach_map]
          rfl
  | edgeScan position edge =>
      rw [run, runEdgeScan, slots, scanEdges]
      cases g.selectEdges? edge.filter with
      | error e => rfl
      | ok selection =>
          dsimp only
          rw [visitFound_eq, visitEach_andThen]
          exact visitEach_congr (fun id _ progress => visitEdge_eq g scope next _ _ id progress) _
  | expandEdge position anchor forward edge =>
      rw [run, runExpandEdge, slots]
      cases progress.context.anchorNode? anchor with
      | error e => rfl
      | ok near =>
          simp only [stepSlots]
          cases g.store.expand? near (edge.direction.fromSide forward) edge.filter with
          | error e => rfl
          | ok steps =>
              dsimp only
              rw [visitEach_ok, visitAll_map]
              rfl
  | edgeEndpoint position anchor forward node =>
      rw [run, runEdgeEndpoint, slots]
      cases progress.context.anchorEnds? anchor with
      | error e => rfl
      | ok ends =>
          obtain ⟨left, right⟩ := ends
          simp only [endpointSlots]
          rw [visitFound_eq, visitEach_map]
          rfl
  | varLengthExpand position anchor forward edge =>
      cases anchor with
      | none =>
          rw [run, runVarLengthExpand, slots, visitEach, visitAll_flatMap]
          exact visitAll_congr
            (fun start _ progress => visitPaths_eq g scope next _ _ _ start progress) _
      | some anchor =>
          rw [run, runVarLengthExpand, slots]
          cases progress.context.anchorNode? anchor with
          | error e => rfl
          | ok start => exact visitPaths_eq g scope next _ _ _ start progress

end Run

end Operator

def contexts (g : Graph) (scope : Scope) : List Operator → Context → Findings Context
  | [] => fun ctx => [.ok ctx]
  | operator :: rest => fun ctx => (operator.slots g scope ctx).andThen fun slot =>
      (ctx.fill scope operator.position operator.name slot).andThen (contexts g scope rest)

section Simulation

variable {σ : Type} {g : Graph} {scope : Scope}

def endsIn (ctx : Context) (ended : σ × Outcome) : Progress σ × Outcome := (⟨ctx, ended.1⟩, ended.2)

theorem visitEach_endsIn {α : Type} {ctx : Context} {visit : α → Visit (Progress σ)}
    {out : α → Visit σ} {findings : Findings α}
    (same : ∀ a, .ok a ∈ findings → ∀ s, visit a ⟨ctx, s⟩ = endsIn ctx (out a s)) (s : σ) :
    visitEach visit findings ⟨ctx, s⟩ = endsIn ctx (visitEach out findings s) :=
  visitEach_framed (Progress.mk ctx) same s

theorem visitEach_singleton {α : Type} (visit : α → Visit σ) (a : α) (s : σ) :
    visitEach visit [.ok a] s = visit a s := by
  rw [visitEach_cons_ok]
  rcases visit a s with ⟨s', _ | _ | e⟩ <;> rfl

theorem visitSlot_eq {ctx : Context} {position : Nat} (empty : ctx.slot? position = none)
    {name : Option String} {next : Visit (Progress σ)} {out : Context → Visit σ} {slot : Slot}
    (next_eq : ∀ filled, .ok filled ∈ ctx.fill scope position name slot →
      ∀ s, next ⟨filled, s⟩ = endsIn filled (out filled s)) (s : σ) :
    Operator.visitSlot scope position name next slot ⟨ctx, s⟩ =
      endsIn ctx (visitEach out (ctx.fill scope position name slot) s) := by
  have restored := Context.release_place scope name slot empty
  unfold Context.fill at next_eq ⊢
  unfold Operator.visitSlot
  generalize ctx.place scope position name slot = placed at restored next_eq ⊢
  rcases placed with ⟨after, e | _ | receipt⟩
  · cases restored
    rfl
  · cases restored
    rfl
  · dsimp only at restored next_eq ⊢
    rw [next_eq after List.mem_cons_self, visitEach_singleton]
    simp only [endsIn, restored]

theorem slot?_of_path {ctx after : Context} {position other : Nat} {slot : Slot}
    (path : after.path = ctx.path.set position (some slot)) (apart : position ≠ other) :
    after.slot? other = ctx.slot? other := by
  rw [Context.slot?, path, List.getElem?_set_ne apart, Context.slot?]

theorem foldr_run_eq {sink : Visit (Progress σ)} {out : Context → Visit σ}
    (sink_eq : ∀ ctx s, sink ⟨ctx, s⟩ = endsIn ctx (out ctx s)) {steps : List Operator}
    (distinct : (steps.map Operator.position).Nodup) {ctx : Context}
    (empty : ∀ operator ∈ steps, ctx.slot? operator.position = none) (s : σ) :
    steps.foldr (fun operator next => operator.run g scope next) sink ⟨ctx, s⟩ =
      endsIn ctx (visitEach out (contexts g scope steps ctx) s) := by
  -- Each step restores the context before its next slot, so the later steps start from a filled one.
  induction steps generalizing ctx s with
  | nil => rw [contexts, visitEach_singleton, List.foldr_nil, sink_eq]
  | cons operator rest ih =>
      obtain ⟨apart, distinct⟩ := List.nodup_cons.mp distinct
      obtain ⟨empty_here, empty⟩ := List.forall_mem_cons.mp empty
      rw [List.foldr_cons, Operator.run_eq_visitEach, contexts, visitEach_andThen]
      refine visitEach_endsIn (fun slot _ s => ?_) s
      rw [visitEach_andThen]
      refine visitSlot_eq empty_here (fun filled mem s => ih distinct (fun other listed => ?_) s) s
      have ne : operator.position ≠ other.position := fun same =>
        apart (List.mem_map.mpr ⟨other, listed, same.symm⟩)
      rw [slot?_of_path (Context.path_of_mem_fill mem) ne]
      exact empty other listed

end Simulation

end PropertyGraph
