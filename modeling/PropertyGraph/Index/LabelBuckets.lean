import PropertyGraph.Container.SetMap
import PropertyGraph.Index.Candidates
import PropertyGraph.Name

/-!
Nodes by label and edges by type. A node stands in the bucket of each of its labels, and in a bucket
of its own kind when it has none.
-/

namespace PropertyGraph

structure LabelBuckets where
  nodes : SetMap Label NodeId compare
  unlabeled : InsertionSet NodeId
  edges : SetMap EdgeType EdgeId compare

namespace LabelBuckets

def empty : LabelBuckets := ⟨∅, ∅, ∅⟩

instance : EmptyCollection LabelBuckets := ⟨empty⟩

def addNode (b : LabelBuckets) (id : NodeId) (labels : LabelSet) : LabelBuckets :=
  if labels.isEmpty then { b with unlabeled := b.unlabeled.insert id }
  else { b with nodes := labels.toList.foldl (SetMap.insertAt · · id) b.nodes }

def removeNode (b : LabelBuckets) (id : NodeId) (labels : LabelSet) : LabelBuckets :=
  if labels.isEmpty then { b with unlabeled := b.unlabeled.erase id }
  else { b with nodes := labels.toList.foldl (SetMap.eraseAt · · id) b.nodes }

def addEdge (b : LabelBuckets) (id : EdgeId) (type : EdgeType) : LabelBuckets :=
  { b with edges := SetMap.insertAt b.edges type id }

def removeEdge (b : LabelBuckets) (id : EdgeId) (type : EdgeType) : LabelBuckets :=
  { b with edges := SetMap.eraseAt b.edges type id }

def nodeBucket? (b : LabelBuckets) (label : Label) : Option (InsertionSet NodeId) := b.nodes[label]?

def edgeBucket? (b : LabelBuckets) (type : EdgeType) : Option (InsertionSet EdgeId) :=
  b.edges[type]?

def labelCounts (b : LabelBuckets) : List (Label × Nat) :=
  b.nodes.toList.map fun (label, bucket) => (label, bucket.size)

def typeCounts (b : LabelBuckets) : List (EdgeType × Nat) :=
  b.edges.toList.map fun (type, bucket) => (type, bucket.size)

section Unions

variable {α : Type} [Ord α] [Std.TransOrd α]

/-- The first of the smallest sets, with its position. -/
def smallest (least : InsertionSet α × Nat) : List (InsertionSet α × Nat) → InsertionSet α × Nat
  | [] => least
  | s :: rest => smallest (if s.1.size < least.1.size then s else least) rest

def unionFrom (earlier : List (InsertionSet α)) : List (InsertionSet α) → List α
  | [] => []
  | s :: rest =>
      s.toList.filter (fun a => !earlier.any (·.contains a)) ++ unionFrom (earlier ++ [s]) rest

def totalSize (sets : List (InsertionSet α)) : Nat := sets.foldr (·.size + ·) 0

end Unions

/-- The nodes that carry every one of the labels; none when no label is asked for. The smallest bucket
is walked and the others are asked. -/
def nodesWithAll (b : LabelBuckets) (labels : List Label) : Candidates NodeId :=
  match labels.mapM b.nodeBucket? with
  | none | some [] => .empty
  | some (first :: rest) =>
      let least := smallest (first, 0) (rest.zipIdx 1)
      let everywhere (id : NodeId) : Bool :=
        (first :: rest).zipIdx.all fun bucket => bucket.2 == least.2 || bucket.1.contains id
      ⟨least.1.toList.filter everywhere, some least.1.size⟩

def nodesWithAny (b : LabelBuckets) (labels : List Label) : Candidates NodeId :=
  let buckets := labels.eraseDups.filterMap b.nodeBucket?
  ⟨unionFrom [] buckets, some (totalSize buckets)⟩

def edgesWithAny (b : LabelBuckets) (types : List EdgeType) : Candidates EdgeId :=
  let buckets := types.eraseDups.filterMap b.edgeBucket?
  ⟨buckets.flatMap InsertionSet.toList, some (totalSize buckets)⟩

end LabelBuckets

end PropertyGraph
