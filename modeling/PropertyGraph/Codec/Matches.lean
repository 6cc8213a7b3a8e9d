import PropertyGraph.Codec.Records
import PropertyGraph.Match.Run

namespace PropertyGraph

open Codec

instance : Codec VariableKind where
  read? document :=
    match document.bareCase? with
    | some "Node" => some .node
    | some "Edges" => some .edges
    | _ => none
  write
    | .node => .text "Node"
    | .edges => .text "Edges"

instance : Codec Direction where
  read? document :=
    match document.bareCase? with
    | some "Outgoing" => some .outgoing
    | some "Incoming" => some .incoming
    | some "Both" => some .both
    | _ => none
  write
    | .outgoing => .text "Outgoing"
    | .incoming => .text "Incoming"
    | .both => .text "Both"

instance : Codec BoundValue where
  read? document :=
    match document.case? with
    | some ("Node", content) => (read? content).map .node
    | some ("Edges", content) => (read? content).map .edges
    | _ => none
  write
    | .node id => .ofCase "Node" (write id)
    | .edges ids => .ofCase "Edges" (write ids)

/-- An absent field counts as null. -/
def readOptional? {α : Type} [Codec α] (field : Option Document) : Option (Option α) :=
  read? (field.getD .null)

namespace HopRange

def ofDocument? (document : Document) : Option HopRange := do
  match ← document.record? ["min", "max"] 2 with
  | [min, max] => return { min := ← readOptional? min, max := ← readOptional? max }
  | _ => none

instance : Codec HopRange :=
  ⟨ofDocument?, fun r => .fields [("min", write r.min), ("max", write r.max)]⟩

end HopRange

namespace MatchOptions

def ofDocument? (document : Document) : Option MatchOptions := do
  match ← document.record? ["pivot", "limit"] 0 with
  | [pivot, limit] => return { pivot := ← readOptional? pivot, limit := ← readOptional? limit }
  | _ => none

instance : Codec MatchOptions :=
  ⟨ofDocument?, fun options =>
    .fields [("pivot", write options.pivot), ("limit", write options.limit)]⟩

end MatchOptions

instance : Codec Bindings :=
  ⟨fun document => (readEntries? document).map .ofList,
    fun bindings => writeEntries bindings.entries⟩

namespace Row

def ofDocument? (document : Document) : Option Row := do
  match ← document.wholeRecord? ["path", "bindings"] with
  | [path, bindings] => return { path := ← read? path, bindings := ← read? bindings }
  | _ => none

instance : Codec Row :=
  ⟨ofDocument?, fun row => .fields [("path", write row.path), ("bindings", write row.bindings)]⟩

end Row

structure RowBatch where
  rows : List Row
  deriving DecidableEq

namespace RowBatch

def ofDocument? (document : Document) : Option RowBatch := do
  match ← document.wholeRecord? ["records"] with
  | [rows] => return { rows := ← read? rows }
  | _ => none

instance : Codec RowBatch := ⟨ofDocument?, fun batch => .fields [("records", write batch.rows)]⟩

end RowBatch

def Statistics.toDocument (s : Statistics) : Document :=
  .fields [("node_count", write s.nodeCount), ("edge_count", write s.edgeCount),
    ("label_counts", writeEntries (s.labelCounts.map fun (label, n) => (label.name, n))),
    ("edge_type_counts", writeEntries (s.typeCounts.map fun (type, n) => (type.name, n)))]

end PropertyGraph
