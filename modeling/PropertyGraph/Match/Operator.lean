import PropertyGraph.Match.Context
import PropertyGraph.Match.Walk

/-!
The steps of a plan. Each binds the candidates for one position in turn, runs the rest of the plan
for each, and undoes the binding. The first step of a plan finds its candidates in the whole graph,
every other one next to what is bound at its anchor; `forward` means that the anchor is on the left.
-/

namespace PropertyGraph

inductive Operator where
  | nodeScan (position : Nat) (node : NodePattern)
  | edgeScan (position : Nat) (edge : EdgePattern)
  | expandEdge (position anchor : Nat) (forward : Bool) (edge : EdgePattern)
  | edgeEndpoint (position anchor : Nat) (forward : Bool) (node : NodePattern)
  | varLengthExpand (position : Nat) (anchor : Option Nat) (forward : Bool) (edge : EdgePattern)
  deriving DecidableEq

structure Progress (σ : Type) where
  context : Context
  gathered : σ

def Direction.fromSide (direction : Direction) (forward : Bool) : Direction :=
  if forward then direction else direction.reversed

/-- The pairs of a left and a right node between which an edge satisfies a pattern edge. -/
def orientations (source target : NodeId) : Direction → List (NodeId × NodeId)
  | .outgoing => [(source, target)]
  | .incoming => [(target, source)]
  | .both => if source = target then [(source, target)] else [(source, target), (target, source)]

namespace Operator

variable {σ : Type}

def position : Operator → Nat
  | .nodeScan position _ => position
  | .edgeScan position _ => position
  | .expandEdge position _ _ _ => position
  | .edgeEndpoint position _ _ _ => position
  | .varLengthExpand position _ _ _ => position

def text : Operator → String
  | .nodeScan position _ => "NodeScan(" ++ toString position ++ ")"
  | .edgeScan position _ => "EdgeScan(" ++ toString position ++ ")"
  | .expandEdge position anchor _ _ =>
      "ExpandEdge(" ++ toString position ++ " from " ++ toString anchor ++ ")"
  | .edgeEndpoint position anchor _ _ =>
      "EdgeEndpoint(" ++ toString position ++ " from " ++ toString anchor ++ ")"
  | .varLengthExpand position (some anchor) _ _ =>
      "VarLengthExpand(" ++ toString position ++ " from " ++ toString anchor ++ ")"
  | .varLengthExpand position none _ _ => "VarLengthExpand(" ++ toString position ++ ")"

/-- Binds a slot, runs the rest, and undoes the binding; a slot that its name refuses is passed
over. -/
def visitSlot (scope : Scope) (position : Nat) (name : Option String) (next : Visit (Progress σ))
    (slot : Slot) : Visit (Progress σ) := fun progress =>
  match progress.context.place scope position name slot with
  | (context, .error e) => ({ progress with context }, .failed e)
  | (context, .ok none) => ({ progress with context }, .next)
  | (context, .ok (some receipt)) =>
      let (progress, outcome) := next { progress with context }
      ({ progress with context := progress.context.release receipt }, outcome)

/-- What a scan walks: the items that its name is restricted to, when they are fewer than the access
path may yield, and else the access path. -/
def scanItems {α : Type} (selection : Selection α) (known : Option (List α))
    (sift : List α → List (Except Incomparable α)) : List (Except Incomparable α) :=
  match known with
  | none => selection.items
  | some ids => if selection.maxSize.all (ids.length < ·) then sift ids else selection.items

def runNodeScan (g : Graph) (scope : Scope) (position : Nat) (node : NodePattern)
    (next : Visit (Progress σ)) : Visit (Progress σ) := fun progress =>
  match g.selectNodes? node.filter with
  | .error e => (progress, .failed (.incomparable e))
  | .ok selection =>
      let found := scanItems selection (scope.knownNodes? node.name) (g.siftNodes node.filter)
      visitFound (fun id => visitSlot scope position node.name next (.node id)) found progress

def visitEdge (g : Graph) (scope : Scope) (position : Nat) (edge : EdgePattern)
    (next : Visit (Progress σ)) (id : EdgeId) : Visit (Progress σ) := fun progress =>
  match g.edge? id with
  | none => (progress, .next)
  | some record =>
      visitAll (fun ends => visitSlot scope position edge.name next (.edges [id] ends.1 ends.2))
        (orientations record.source record.target edge.direction) progress

def runEdgeScan (g : Graph) (scope : Scope) (position : Nat) (edge : EdgePattern)
    (next : Visit (Progress σ)) : Visit (Progress σ) := fun progress =>
  match g.selectEdges? edge.filter with
  | .error e => (progress, .failed (.incomparable e))
  | .ok selection =>
      let found := scanItems selection (scope.knownEdges? edge.name) (g.siftEdges edge.filter)
      visitFound (visitEdge g scope position edge next) found progress

def runExpandEdge (g : Graph) (scope : Scope) (position anchor : Nat) (forward : Bool)
    (edge : EdgePattern) (next : Visit (Progress σ)) : Visit (Progress σ) := fun progress =>
  match progress.context.anchorNode? anchor with
  | .error e => (progress, .failed e)
  | .ok near =>
      match g.store.expand? near (edge.direction.fromSide forward) edge.filter with
      | .error e => (progress, .failed (.incomparable e))
      | .ok steps =>
          visitAll (fun (id, far) => visitSlot scope position edge.name next
            (if forward then .edges [id] near far else .edges [id] far near)) steps progress

def runEdgeEndpoint (g : Graph) (scope : Scope) (position anchor : Nat) (forward : Bool)
    (node : NodePattern) (next : Visit (Progress σ)) : Visit (Progress σ) := fun progress =>
  match progress.context.anchorEnds? anchor with
  | .error e => (progress, .failed e)
  | .ok (left, right) =>
      let id := if forward then right else left
      visitFound (fun id => visitSlot scope position node.name next (.node id))
        (g.siftNodes node.filter [id]) progress

/-- Binds every path from a node, its edges turned round when it was walked from the right. -/
def visitPaths (g : Graph) (scope : Scope) (position : Nat) (forward : Bool) (edge : EdgePattern)
    (next : Visit (Progress σ)) (start : NodeId) : Visit (Progress σ) :=
  g.store.enumeratePaths start (edge.direction.fromSide forward) edge.filter edge.length
    (if forward then .start else .finish)
    fun ids finish => visitSlot scope position edge.name next
      (if forward then .edges ids start finish else .edges ids.reverse finish start)

def runVarLengthExpand (g : Graph) (scope : Scope) (position : Nat) (anchor : Option Nat)
    (forward : Bool) (edge : EdgePattern) (next : Visit (Progress σ)) : Visit (Progress σ) :=
  fun progress =>
    match anchor with
    | none => visitAll (visitPaths g scope position forward edge next) g.store.nodeIds progress
    | some anchor =>
        match progress.context.anchorNode? anchor with
        | .error e => (progress, .failed e)
        | .ok start => visitPaths g scope position forward edge next start progress

def run (g : Graph) (scope : Scope) (operator : Operator) (next : Visit (Progress σ)) :
    Visit (Progress σ) :=
  match operator with
  | .nodeScan position node => runNodeScan g scope position node next
  | .edgeScan position edge => runEdgeScan g scope position edge next
  | .expandEdge position anchor forward edge =>
      runExpandEdge g scope position anchor forward edge next
  | .edgeEndpoint position anchor forward node =>
      runEdgeEndpoint g scope position anchor forward node next
  | .varLengthExpand position anchor forward edge =>
      runVarLengthExpand g scope position anchor forward edge next

end Operator

end PropertyGraph
