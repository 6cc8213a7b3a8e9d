import PropertyGraph.Match.Run
import PropertyGraph.Proofs.Graph.Selection

/-!
What a pattern means, said without a search: the walks that join two nodes, the paths that have the
shape of a pattern, the rows that belong to them in a scope, and rows of several patterns together.
-/

namespace PropertyGraph

def Edge.Crosses (edge : Edge) (direction : Direction) (near far : NodeId) : Prop :=
  match direction with
  | .outgoing => edge.source = near ∧ edge.target = far
  | .incoming => edge.target = near ∧ edge.source = far
  | .both => (edge.source = near ∧ edge.target = far) ∨ (edge.target = near ∧ edge.source = far)

def Store.Leads (s : Store) (direction : Direction) (filter : EdgeFilter) (near : NodeId)
    (id : EdgeId) (far : NodeId) : Prop :=
  ∃ edge, s.edge? id = some edge ∧ filter.Admits edge ∧ edge.Crosses direction near far

/-- A walk between two nodes, with its edges and the nodes that they leave from. -/
inductive Walk (leads : NodeId → EdgeId → NodeId → Prop) :
    NodeId → List EdgeId → List NodeId → NodeId → Prop
  | stay (node : NodeId) : Walk leads node [] [] node
  | step {near far last : NodeId} {id : EdgeId} {ids : List EdgeId} {nodes : List NodeId} :
      leads near id far → Walk leads far ids nodes last →
        Walk leads near (id :: ids) (near :: nodes) last

/-- The edges of a path that joins two nodes: none is used twice, and no node is left twice, so that
only the last one may have been met before. -/
def Store.Joins (s : Store) (direction : Direction) (filter : EdgeFilter) (length : HopRange)
    (left : NodeId) (ids : List EdgeId) (right : NodeId) : Prop :=
  length.contains ids.length = true ∧ ids.Nodup ∧
    ∃ nodes, nodes.Nodup ∧ Walk (s.Leads direction filter) left ids nodes right

def EdgePattern.Joins (edge : EdgePattern) (s : Store) (left : NodeId) (ids : List EdgeId)
    (right : NodeId) : Prop :=
  s.Joins edge.direction edge.filter edge.length left ids right

namespace PathPattern

def Continues (g : Graph) (left : NodeId) : List Segment → List BoundValue → Prop
  | [], [] => True
  | segment :: segments, .edges ids :: .node right :: rest =>
      segment.edge.Joins g.store left ids right ∧ g.NodePasses segment.node.filter right ∧
        Continues g right segments rest
  | _, _ => False

/-- The values have the shape of the pattern, whatever its names. -/
def Fits (g : Graph) (p : PathPattern) : List BoundValue → Prop
  | .node id :: rest => g.NodePasses p.start.filter id ∧ Continues g id p.segments rest
  | _ => False

def entries (p : PathPattern) (path : List BoundValue) : List (String × BoundValue) :=
  (p.elements.zip path).filterMap fun (element, value) => element.name.map fun name => (name, value)

end PathPattern

namespace Scope

/-- The name has its value from outside the run. -/
def Fixes (scope : Scope) (name : String) : Prop :=
  scope.pinned.contains name = true ∨ name ∈ scope.symbols

instance (scope : Scope) : DecidablePred scope.Fixes := fun name => by
  unfold Fixes
  infer_instance

def Admits (scope : Scope) (name : String) (value : BoundValue) : Prop :=
  match scope.pinned.get? name with
  | some pinned => value = pinned
  | none => ∀ symbol, scope.symbols[name]? = some symbol → symbol.contains value = true

/-- Names that are fixed outside take what they may, every other one takes one value throughout. -/
def Agrees (scope : Scope) (entries : List (String × BoundValue)) : Prop :=
  (∀ entry ∈ entries, scope.Admits entry.1 entry.2) ∧
    ∀ a ∈ entries, ∀ b ∈ entries, a.1 = b.1 → ¬scope.Fixes a.1 → a.2 = b.2

def bound (scope : Scope) (entries : List (String × BoundValue)) : Bindings :=
  .ofList (entries.filter fun entry => ¬scope.Fixes entry.1)

end Scope

structure PathPattern.Matches (p : PathPattern) (g : Graph) (scope : Scope) (row : Row) : Prop where
  fits : p.Fits g row.path
  agrees : scope.Agrees (p.entries row.path)
  bindings : row.bindings = scope.bound (p.entries row.path)

def Row.joined (tuple : List Row) : Row where
  path := tuple.flatMap Row.path
  bindings := .ofList (tuple.flatMap fun row => row.bindings.entries)

/-- Matches of the parts, each by itself, that agree on every name that two of them bind. -/
structure Clause.Matches (clause : Clause) (g : Graph) (symbols : Symbols) (tuple : List Row) :
    Prop where
  each : List.Forall₂ (fun part row => part.Matches g ⟨symbols, ∅⟩ row) clause.parts tuple
  agree : tuple.Pairwise fun a b => a.bindings.Agree b.bindings

end PropertyGraph
