import PropertyGraph.Container.SetMap
import PropertyGraph.Record

/-!
The records of a graph and who is adjacent to whom. Nodes and edges stand in slots that are never
used again, so the handle of what was removed stays dead. At each node the edges that leave it and
those that arrive are grouped by type, in the order in which the types came.
-/

namespace PropertyGraph

inductive GraphError where
  | nodeNotFound (id : NodeId)
  | edgeNotFound (id : EdgeId)
  | sourceMissing (id : NodeId)
  | targetMissing (id : NodeId)
  | incomparable (e : Incomparable)
  deriving DecidableEq, Repr

def GraphError.message : GraphError → String
  | .nodeNotFound id => "Node " ++ id.text ++ " not found"
  | .edgeNotFound id => "Edge " ++ id.text ++ " not found"
  | .sourceMissing id => "Invalid edge: source node " ++ id.text ++ " does not exist"
  | .targetMissing id => "Invalid edge: target node " ++ id.text ++ " does not exist"
  | .incomparable e => e.message

/-- A node's slot: its record, unless it was removed, and its edges by type. -/
structure NodeSlot where
  record : Option Node
  outgoing : GroupMap EdgeType EdgeId
  incoming : GroupMap EdgeType EdgeId

structure Store where
  nodes : Array NodeSlot
  edges : Array (Option Edge)
  nodeCount : Nat
  edgeCount : Nat

namespace Store

def empty : Store := ⟨#[], #[], 0, 0⟩

instance : EmptyCollection Store := ⟨empty⟩

def node? (s : Store) (id : NodeId) : Option Node := s.nodes[id.index]?.bind NodeSlot.record

def edge? (s : Store) (id : EdgeId) : Option Edge := s.edges[id.index]?.join

theorem index_lt_of_edge? {s : Store} {id : EdgeId} {edge : Edge} (h : s.edge? id = some edge) :
    id.index < s.edges.size := by
  cases hs : s.edges[id.index]? with
  | none => simp [edge?, hs] at h
  | some slot => exact (Array.getElem?_eq_some_iff.mp hs).1

def hasNode (s : Store) (id : NodeId) : Bool := (s.node? id).isSome

def hasEdge (s : Store) (id : EdgeId) : Bool := (s.edge? id).isSome

def liveNodes (s : Store) : List Node := s.nodes.toList.filterMap NodeSlot.record

def liveEdges (s : Store) : List Edge := s.edges.toList.filterMap id

def nodeIds (s : Store) : List NodeId := s.liveNodes.map Node.id

def edgeIds (s : Store) : List EdgeId := s.liveEdges.map Edge.id

def outgoingGroups (s : Store) (id : NodeId) : GroupMap EdgeType EdgeId :=
  (s.nodes[id.index]?.map NodeSlot.outgoing).getD ∅

def incomingGroups (s : Store) (id : NodeId) : GroupMap EdgeType EdgeId :=
  (s.nodes[id.index]?.map NodeSlot.incoming).getD ∅

def outgoing (s : Store) (id : NodeId) : List EdgeId := (s.outgoingGroups id).items

def incoming (s : Store) (id : NodeId) : List EdgeId := (s.incomingGroups id).items

def outgoingOf (s : Store) (id : NodeId) (type : EdgeType) : List EdgeId :=
  (s.outgoingGroups id).itemsAt type

def incomingOf (s : Store) (id : NodeId) (type : EdgeType) : List EdgeId :=
  (s.incomingGroups id).itemsAt type

def link (s : Store) (source target : NodeId) (type : EdgeType) (id : EdgeId) : Store :=
  { s with
    nodes := (s.nodes.modify source.index fun slot =>
      { slot with outgoing := slot.outgoing.insertAt type id }).modify target.index fun slot =>
      { slot with incoming := slot.incoming.insertAt type id } }

def unlink (s : Store) (source target : NodeId) (type : EdgeType) (id : EdgeId) : Store :=
  { s with
    nodes := (s.nodes.modify source.index fun slot =>
      { slot with outgoing := slot.outgoing.eraseAt type id }).modify target.index fun slot =>
      { slot with incoming := slot.incoming.eraseAt type id } }

def addNode (s : Store) (labels : LabelSet) (properties : Properties) : Store × NodeId :=
  let id : NodeId := ⟨s.nodes.size⟩
  ({ s with nodes := s.nodes.push ⟨some ⟨id, labels, properties⟩, ∅, ∅⟩
            nodeCount := s.nodeCount + 1 }, id)

/-- Adds an edge between two nodes that are there; a missing source is reported first. -/
def addEdge (s : Store) (source target : NodeId) (type : EdgeType) (properties : Properties) :
    Except GraphError (Store × EdgeId) :=
  if !s.hasNode source then .error (.sourceMissing source)
  else if !s.hasNode target then .error (.targetMissing target)
  else
    let id : EdgeId := ⟨s.edges.size⟩
    let linked := s.link source target type id
    .ok ({ linked with edges := linked.edges.push (some ⟨id, source, target, type, properties⟩)
                       edgeCount := linked.edgeCount + 1 }, id)

def removeEdge (s : Store) (id : EdgeId) : Except GraphError (Store × Edge) :=
  match s.edge? id with
  | none => .error (.edgeNotFound id)
  | some edge =>
      let unlinked := s.unlink edge.source edge.target edge.type id
      .ok ({ unlinked with edges := unlinked.edges.setIfInBounds id.index none
                           edgeCount := unlinked.edgeCount - 1 }, edge)

def removeEdges (s : Store) : List EdgeId → Store × Except GraphError (List Edge)
  | [] => (s, .ok [])
  | id :: rest =>
      match s.removeEdge id with
      | .error e => (s, .error e)
      | .ok (s, edge) =>
          let (s, removed) := removeEdges s rest
          (s, removed.map (edge :: ·))

/-- The edges at a node: those that leave it, then those that only arrive. -/
def incident (s : Store) (id : NodeId) : List EdgeId :=
  s.outgoing id ++ (s.incoming id).filter fun edge =>
    ((s.edge? edge).map fun edge => !edge.isSelfLoop).getD false

def detachNode (s : Store) (id : NodeId) : Store × Except GraphError (List Edge) :=
  if s.hasNode id then s.removeEdges (s.incident id) else (s, .error (.nodeNotFound id))

def removeNode (s : Store) (id : NodeId) : Store × Except GraphError (Node × List Edge) :=
  match s.detachNode id with
  | (s, .error e) => (s, .error e)
  | (s, .ok edges) =>
      match s.node? id with
      | none => (s, .error (.nodeNotFound id))
      | some node =>
          ({ s with nodes := s.nodes.setIfInBounds id.index ⟨none, ∅, ∅⟩
                    nodeCount := s.nodeCount - 1 }, .ok (node, edges))

def setNode (s : Store) (id : NodeId) (node : Node) : Store :=
  { s with nodes := s.nodes.modify id.index fun slot => { slot with record := some node } }

def setEdge (s : Store) (id : EdgeId) (edge : Edge) : Store :=
  { s with edges := s.edges.setIfInBounds id.index (some edge) }

/-- Gives an edge another type and says which it had; at its ends it moves behind the edges of its
new type. -/
def retypeEdge (s : Store) (id : EdgeId) (type : EdgeType) : Except GraphError (Store × EdgeType) :=
  match s.edge? id with
  | none => .error (.edgeNotFound id)
  | some edge =>
      let unlinked := s.unlink edge.source edge.target edge.type id
      let linked := unlinked.link edge.source edge.target type id
      .ok (linked.setEdge id { edge with type }, edge.type)

end Store

end PropertyGraph
