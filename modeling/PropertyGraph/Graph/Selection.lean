import PropertyGraph.Filter
import PropertyGraph.Graph

/-!
Lookups by filter. The smallest access path is walked: the buckets of the labels or types asked for,
or the index on one of the properties, or else all there is; what the path offers is then passed
through the filter, up to the first record that cannot be compared.
-/

namespace PropertyGraph

/-- What a lookup yields, item by item, with the bound of its access path. A failure is the last
item. -/
structure Selection (α : Type) where
  items : List (Except Incomparable α)
  maxSize : Option Nat

/-- The items whose record is there and passes, up to the first whose test fails. -/
def sift {α ρ : Type} (record? : α → Option ρ) (accepts? : ρ → Except Incomparable Bool) :
    List α → List (Except Incomparable α)
  | [] => []
  | a :: rest =>
      match record? a with
      | none => sift record? accepts? rest
      | some record =>
          match accepts? record with
          | .ok true => .ok a :: sift record? accepts? rest
          | .ok false => sift record? accepts? rest
          | .error e => [.error e]

section Access

variable {α : Type} [Ord α] [Std.TransOrd α]

def Candidates.ofHolders : Option (InsertionSet α) → Candidates α
  | none => .empty
  | some holders => ⟨holders.toList, some holders.size⟩

/-- The new path, unless the best so far is as small. -/
def Candidates.better (best : Option (Candidates α)) (c : Candidates α) : Candidates α :=
  match best with
  | none => c
  | some b => if c.isSmallerThan b then c else b

def IndexCatalog.narrow? (indexes : IndexCatalog α) (best : Option (Candidates α)) :
    List (String × PropertyValue) → Except Incomparable (Option (Candidates α))
  | [] => .ok best
  | (key, value) :: rest =>
      match indexes[key]? with
      | none => indexes.narrow? best rest
      | some index =>
          match index.get? value with
          | .error e => .error e
          | .ok holders => indexes.narrow? (some (.better best (.ofHolders holders))) rest

end Access

namespace Graph

def nodeCandidates? (g : Graph) (filter : NodeFilter) : Except Incomparable (Candidates NodeId) :=
  let byLabel := if filter.labels.isEmpty then none else some (g.buckets.nodesWithAll filter.labels)
  (g.nodeIndexes.narrow? byLabel filter.properties).map (·.getD ⟨g.store.nodeIds, none⟩)

def edgeCandidates? (g : Graph) (filter : EdgeFilter) : Except Incomparable (Candidates EdgeId) :=
  let byType := if filter.types.isEmpty then none else some (g.buckets.edgesWithAny filter.types)
  (g.edgeIndexes.narrow? byType filter.properties).map (·.getD ⟨g.store.edgeIds, none⟩)

def siftNodes (g : Graph) (filter : NodeFilter) (ids : List NodeId) :
    List (Except Incomparable NodeId) :=
  sift g.node? filter.accepts? ids

def siftEdges (g : Graph) (filter : EdgeFilter) (ids : List EdgeId) :
    List (Except Incomparable EdgeId) :=
  sift g.edge? filter.accepts? ids

def selectNodes? (g : Graph) (filter : NodeFilter) : Except Incomparable (Selection NodeId) :=
  (g.nodeCandidates? filter).map fun c => ⟨g.siftNodes filter c.items, c.maxSize⟩

def selectEdges? (g : Graph) (filter : EdgeFilter) : Except Incomparable (Selection EdgeId) :=
  (g.edgeCandidates? filter).map fun c => ⟨g.siftEdges filter c.items, c.maxSize⟩

def estimateNodes? (g : Graph) (filter : NodeFilter) : Except Incomparable (Option Nat) :=
  (g.nodeCandidates? filter).map Candidates.maxSize

def estimateEdges? (g : Graph) (filter : EdgeFilter) : Except Incomparable (Option Nat) :=
  (g.edgeCandidates? filter).map Candidates.maxSize

def nodesWithAnyLabel (g : Graph) (labels : List Label) : Candidates NodeId :=
  g.buckets.nodesWithAny labels

end Graph

end PropertyGraph
