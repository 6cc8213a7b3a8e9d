import PropertyGraph.Index.IndexCatalog
import PropertyGraph.Index.LabelBuckets
import PropertyGraph.Store

/-!
A graph: the store with its label buckets and property indexes. Every change keeps the three in
step; it gives the graph as the change left it, with its result or the reason why it failed.
-/

namespace PropertyGraph

structure Graph where
  store : Store
  buckets : LabelBuckets
  nodeIndexes : IndexCatalog NodeId
  edgeIndexes : IndexCatalog EdgeId

structure Statistics where
  nodeCount : Nat
  edgeCount : Nat
  labelCounts : List (Label × Nat)
  typeCounts : List (EdgeType × Nat)
  deriving DecidableEq, Repr

namespace Graph

def empty : Graph := ⟨∅, ∅, ∅, ∅⟩

instance : EmptyCollection Graph := ⟨empty⟩

def node? (g : Graph) (id : NodeId) : Option Node := g.store.node? id

def edge? (g : Graph) (id : EdgeId) : Option Edge := g.store.edge? id

def statistics (g : Graph) : Statistics where
  nodeCount := g.store.nodeCount
  edgeCount := g.store.edgeCount
  labelCounts := g.buckets.labelCounts
  typeCounts := g.buckets.typeCounts

def newNode (g : Graph) (labels : LabelSet) (properties : Properties) :
    Graph × Except GraphError NodeId :=
  match g.nodeIndexes.checkAll? properties with
  | .error e => (g, .error (.incomparable e))
  | .ok () =>
      let (store, id) := g.store.addNode labels properties
      let (nodeIndexes, result) := g.nodeIndexes.insertAll properties id
      let g := { g with store, nodeIndexes, buckets := g.buckets.addNode id labels }
      match result with
      | .error e => (g, .error (.incomparable e))
      | .ok () => (g, .ok id)

def newEdge (g : Graph) (source target : NodeId) (type : EdgeType) (properties : Properties) :
    Graph × Except GraphError EdgeId :=
  match g.edgeIndexes.checkAll? properties with
  | .error e => (g, .error (.incomparable e))
  | .ok () =>
      match g.store.addEdge source target type properties with
      | .error e => (g, .error e)
      | .ok (store, id) =>
          let (edgeIndexes, result) := g.edgeIndexes.insertAll properties id
          let g := { g with store, edgeIndexes, buckets := g.buckets.addEdge id type }
          match result with
          | .error e => (g, .error (.incomparable e))
          | .ok () => (g, .ok id)

def setNodeProperty (g : Graph) (id : NodeId) (key : String) (value : PropertyValue) :
    Graph × Except GraphError (Option PropertyValue) :=
  match g.node? id with
  | none => (g, .error (.nodeNotFound id))
  | some node =>
      let old := node.property? key
      match g.nodeIndexes.replace key old value id with
      | (nodeIndexes, .error e) => ({ g with nodeIndexes }, .error (.incomparable e))
      | (nodeIndexes, .ok ()) =>
          let properties := node.properties.insert key value
          ({ g with nodeIndexes, store := g.store.setNode id { node with properties } }, .ok old)

def removeNodeProperty (g : Graph) (id : NodeId) (key : String) :
    Graph × Except GraphError (Option PropertyValue) :=
  match g.node? id with
  | none => (g, .error (.nodeNotFound id))
  | some node =>
      match node.property? key with
      | none => (g, .ok none)
      | some old =>
          let properties := node.properties.erase key
          ({ g with
              store := g.store.setNode id { node with properties }
              nodeIndexes := g.nodeIndexes.remove key old id }, .ok (some old))

def relabel (g : Graph) (id : NodeId) (node : Node) (labels : LabelSet) : Graph :=
  { g with
    store := g.store.setNode id { node with labels }
    buckets := (g.buckets.removeNode id node.labels).addNode id labels }

def setNodeLabels (g : Graph) (id : NodeId) (labels : LabelSet) : Graph × Except GraphError Unit :=
  match g.node? id with
  | none => (g, .error (.nodeNotFound id))
  | some node => (g.relabel id node labels, .ok ())

def addNodeLabel (g : Graph) (id : NodeId) (label : Label) : Graph × Except GraphError Bool :=
  match g.node? id with
  | none => (g, .error (.nodeNotFound id))
  | some node =>
      if node.hasLabel label then (g, .ok false)
      else (g.relabel id node (node.labels.insert label), .ok true)

def removeNodeLabel (g : Graph) (id : NodeId) (label : Label) : Graph × Except GraphError Bool :=
  match g.node? id with
  | none => (g, .error (.nodeNotFound id))
  | some node =>
      if node.hasLabel label then (g.relabel id node (node.labels.erase label), .ok true)
      else (g, .ok false)

def forgetEdge (g : Graph) (edge : Edge) : Graph :=
  { g with
    buckets := g.buckets.removeEdge edge.id edge.type
    edgeIndexes := g.edgeIndexes.removeAll edge.properties edge.id }

def detachNode (g : Graph) (id : NodeId) : Graph × Except GraphError (List Edge) :=
  match g.store.detachNode id with
  | (store, .error e) => ({ g with store }, .error e)
  | (store, .ok edges) => (edges.foldl forgetEdge { g with store }, .ok edges)

def removeNode (g : Graph) (id : NodeId) : Graph × Except GraphError Node :=
  match g.store.removeNode id with
  | (store, .error e) => ({ g with store }, .error e)
  | (store, .ok (node, edges)) =>
      let g := edges.foldl forgetEdge { g with store }
      ({ g with
          buckets := g.buckets.removeNode id node.labels
          nodeIndexes := g.nodeIndexes.removeAll node.properties id }, .ok node)

def setEdgeProperty (g : Graph) (id : EdgeId) (key : String) (value : PropertyValue) :
    Graph × Except GraphError (Option PropertyValue) :=
  match g.edge? id with
  | none => (g, .error (.edgeNotFound id))
  | some edge =>
      let old := edge.property? key
      match g.edgeIndexes.replace key old value id with
      | (edgeIndexes, .error e) => ({ g with edgeIndexes }, .error (.incomparable e))
      | (edgeIndexes, .ok ()) =>
          let properties := edge.properties.insert key value
          ({ g with edgeIndexes, store := g.store.setEdge id { edge with properties } }, .ok old)

def removeEdgeProperty (g : Graph) (id : EdgeId) (key : String) :
    Graph × Except GraphError (Option PropertyValue) :=
  match g.edge? id with
  | none => (g, .error (.edgeNotFound id))
  | some edge =>
      match edge.property? key with
      | none => (g, .ok none)
      | some old =>
          let properties := edge.properties.erase key
          ({ g with
              store := g.store.setEdge id { edge with properties }
              edgeIndexes := g.edgeIndexes.remove key old id }, .ok (some old))

def setEdgeType (g : Graph) (id : EdgeId) (type : EdgeType) : Graph × Except GraphError EdgeType :=
  match g.store.retypeEdge id type with
  | .error e => (g, .error e)
  | .ok (store, old) =>
      ({ g with store, buckets := (g.buckets.removeEdge id old).addEdge id type }, .ok old)

def removeEdge (g : Graph) (id : EdgeId) : Graph × Except GraphError Edge :=
  match g.store.removeEdge id with
  | .error e => (g, .error e)
  | .ok (store, edge) => ({ g with store }.forgetEdge edge, .ok edge)

def addNodeIndex (g : Graph) (key : String) : Graph × Except GraphError Unit :=
  let holders := g.store.liveNodes.filterMap fun node =>
    (node.property? key).map fun value => (value, node.id)
  let (nodeIndexes, result) := g.nodeIndexes.build key holders
  ({ g with nodeIndexes }, result.mapError .incomparable)

def addEdgeIndex (g : Graph) (key : String) : Graph × Except GraphError Unit :=
  let holders := g.store.liveEdges.filterMap fun edge =>
    (edge.property? key).map fun value => (value, edge.id)
  let (edgeIndexes, result) := g.edgeIndexes.build key holders
  ({ g with edgeIndexes }, result.mapError .incomparable)

def dropNodeIndex (g : Graph) (key : String) : Graph × Bool :=
  let (nodeIndexes, dropped) := g.nodeIndexes.drop key
  ({ g with nodeIndexes }, dropped)

def dropEdgeIndex (g : Graph) (key : String) : Graph × Bool :=
  let (edgeIndexes, dropped) := g.edgeIndexes.drop key
  ({ g with edgeIndexes }, dropped)

end Graph

end PropertyGraph
