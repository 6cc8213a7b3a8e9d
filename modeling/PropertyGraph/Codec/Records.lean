import PropertyGraph.Codec.Document
import PropertyGraph.Record

namespace PropertyGraph

open Codec

instance : Codec NodeId :=
  ⟨fun document => (read? document).map NodeId.mk, fun id => write id.index⟩

instance : Codec EdgeId :=
  ⟨fun document => (read? document).map EdgeId.mk, fun id => write id.index⟩

instance : Codec Label := ⟨fun document => (read? document).map Label.mk, fun l => write l.name⟩

instance : Codec EdgeType :=
  ⟨fun document => (read? document).map EdgeType.mk, fun type => write type.name⟩

namespace PropertyValue

mutual

def ofDocument? : Document → Option PropertyValue
  | .fields [("Boolean", content)] => (read? content).map .boolean
  | .fields [("Integer", content)] => (read? content).map .integer
  | .fields [("Float", content)] => (read? content).map .float
  | .fields [("String", content)] => (read? content).map .string
  | .fields [("List", .list items)] => (ofDocuments? items).map .list
  | _ => none

def ofDocuments? : List Document → Option (List PropertyValue)
  | [] => some []
  | document :: rest =>
      match ofDocument? document, ofDocuments? rest with
      | some value, some values => some (value :: values)
      | _, _ => none

end

mutual

def toDocument : PropertyValue → Document
  | .boolean b => .ofCase "Boolean" (write b)
  | .integer i => .ofCase "Integer" (write i)
  | .float x => .ofCase "Float" (write x)
  | .string s => .ofCase "String" (write s)
  | .list items => .ofCase "List" (.list (toDocuments items))

def toDocuments : List PropertyValue → List Document
  | [] => []
  | value :: rest => value.toDocument :: toDocuments rest

end

instance : Codec PropertyValue := ⟨ofDocument?, toDocument⟩

end PropertyValue

def Properties.ofDocument? (document : Document) : Option Properties :=
  (readEntries? document).map .ofPairs

def Properties.toDocument (props : Properties) : Document := writeEntries props.toList

instance : Codec Properties := ⟨Properties.ofDocument?, Properties.toDocument⟩

instance : Codec LabelSet :=
  ⟨fun document => (read? document).map LabelSet.ofList, fun labels => write labels.toList⟩

namespace Node

def ofDocument? (document : Document) : Option Node := do
  match ← document.wholeRecord? ["id", "labels", "properties"] with
  | [id, labels, properties] =>
      return { id := ← read? id, labels := ← read? labels, properties := ← read? properties }
  | _ => none

def toDocument (node : Node) : Document :=
  .fields [("id", write node.id), ("labels", write node.labels),
    ("properties", write node.properties)]

instance : Codec Node := ⟨ofDocument?, toDocument⟩

end Node

namespace Edge

def ofDocument? (document : Document) : Option Edge := do
  match ← document.wholeRecord? ["id", "source", "target", "edge_type", "properties"] with
  | [id, source, target, type, properties] =>
      return { id := ← read? id, source := ← read? source, target := ← read? target,
               type := ← read? type, properties := ← read? properties }
  | _ => none

def toDocument (edge : Edge) : Document :=
  .fields [("id", write edge.id), ("source", write edge.source), ("target", write edge.target),
    ("edge_type", write edge.type), ("properties", write edge.properties)]

instance : Codec Edge := ⟨ofDocument?, toDocument⟩

end Edge

end PropertyGraph
