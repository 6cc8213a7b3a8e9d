import PropertyGraph.Match.Error

/-!
The state of a match run: what stands at each position of the pattern so far, and the variables
bound on the way. The scope around the run restricts names and is never changed by it: a name may be
pinned to one value or be a symbol with a set of members.
-/

namespace PropertyGraph

/-- What is bound at one position: a node, or edges in pattern order with the nodes at both ends. -/
inductive Slot where
  | node (id : NodeId)
  | edges (ids : List EdgeId) (left right : NodeId)
  deriving DecidableEq, Repr

inductive Verdict where
  | refused
  | allowed
  | fresh
  deriving DecidableEq, Repr

namespace Slot

def kind : Slot → VariableKind
  | .node _ => .node
  | .edges _ _ _ => .edges

def value : Slot → BoundValue
  | .node id => .node id
  | .edges ids _ _ => .edges ids

def weigh? (slot : Slot) (name : String) (found : VariableKind) (fits : Bool) :
    Except MatchError Verdict :=
  if slot.kind = found then .ok (if fits then .allowed else .refused)
  else .error (.kindMismatch name slot.kind found)

end Slot

/-- The names fixed outside a run: pinned values come before symbols. -/
structure Scope where
  symbols : Symbols
  pinned : Bindings

namespace Scope

def knownNodes? (scope : Scope) (name : Option String) : Option (List NodeId) :=
  match name with
  | none => none
  | some name =>
      match scope.pinned.get? name with
      | some (.node id) => some [id]
      | _ =>
          match scope.symbols[name]? with
          | some (.nodes ids) => some ids.toList
          | _ => none

def knownEdges? (scope : Scope) (name : Option String) : Option (List EdgeId) :=
  match name with
  | none => none
  | some name =>
      match scope.pinned.get? name with
      | some (.edges [id]) => some [id]
      | some (.edges _) => some []
      | _ =>
          match scope.symbols[name]? with
          | some (.edges sequences) => some (sequences.toList.filterMap fun
              | [id] => some id
              | _ => none)
          | _ => none

end Scope

structure Context where
  bindings : Bindings
  path : List (Option Slot)
  deriving DecidableEq

structure Receipt where
  position : Nat
  boundName : Bool
  deriving DecidableEq, Repr

namespace Context

def empty (length : Nat) : Context := ⟨∅, List.replicate length none⟩

def slot? (ctx : Context) (position : Nat) : Option Slot := ctx.path[position]?.join

def anchorNode? (ctx : Context) (position : Nat) : Except MatchError NodeId :=
  match ctx.slot? position with
  | some (.node id) => .ok id
  | _ => .error (.invalidPattern (.unboundPosition position))

def anchorEnds? (ctx : Context) (position : Nat) : Except MatchError (NodeId × NodeId) :=
  match ctx.slot? position with
  | some (.edges _ left right) => .ok (left, right)
  | _ => .error (.invalidPattern (.unboundPosition position))

/-- What a name says to a slot: a pinned value and an earlier binding must be equal to it, a symbol
must have it as a member, and a name without a value takes it. -/
def verdict? (ctx : Context) (scope : Scope) (name : String) (slot : Slot) :
    Except MatchError Verdict :=
  match scope.pinned.get? name with
  | some value => slot.weigh? name value.kind (slot.value == value)
  | none =>
      match scope.symbols[name]? with
      | some symbol => slot.weigh? name symbol.kind (symbol.contains slot.value)
      | none =>
          match ctx.bindings.get? name with
          | some value => slot.weigh? name value.kind (slot.value == value)
          | none => .ok .fresh

def put (ctx : Context) (bindings : Bindings) (position : Nat) (slot : Slot) (boundName : Bool) :
    Context × Except MatchError (Option Receipt) :=
  if position < ctx.path.length then
    (⟨bindings, ctx.path.set position (some slot)⟩, .ok (some ⟨position, boundName⟩))
  else (ctx, .error (.outOfBounds position ctx.path.length))

def place (ctx : Context) (scope : Scope) (position : Nat) (name : Option String) (slot : Slot) :
    Context × Except MatchError (Option Receipt) :=
  match name with
  | none => ctx.put ctx.bindings position slot false
  | some name =>
      match ctx.verdict? scope name slot with
      | .error e => (ctx, .error e)
      | .ok .refused => (ctx, .ok none)
      | .ok .allowed => ctx.put ctx.bindings position slot false
      | .ok .fresh => ctx.put (ctx.bindings.insert name slot.value) position slot true

/-- Undoes a binding; bindings are undone in the reverse of the order in which they were made. -/
def release (ctx : Context) (receipt : Receipt) : Context where
  bindings := if receipt.boundName then ctx.bindings.dropLast else ctx.bindings
  path := ctx.path.set receipt.position none

def pathValues (ctx : Context) : List BoundValue := (ctx.path.filterMap id).map Slot.value

def rowBindings (ctx : Context) (names : List String) : Bindings :=
  .ofList (names.filterMap fun name => (ctx.bindings.get? name).map fun value => (name, value))

end Context

end PropertyGraph
