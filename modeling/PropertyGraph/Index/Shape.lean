import PropertyGraph.Value

/-!
The shape of a value: its kind, and for a list the shape that its items share. Values whose shapes
merge can all be compared with one another; an empty list merges with every list.
-/

namespace PropertyGraph

inductive Shape where
  | boolean
  | integer
  | float
  | string
  | emptyList
  | listOf (item : Shape)
  deriving DecidableEq, Repr

namespace Shape

def kind : Shape → ValueKind
  | .boolean => .boolean
  | .integer => .integer
  | .float => .float
  | .string => .string
  | .emptyList => .list
  | .listOf _ => .list

/-- The shape of both, when what was seen so far and what is new can be compared. The new kind is
named first in the error. -/
def merge? : Shape → Shape → Except Incomparable Shape
  | .emptyList, .emptyList => .ok .emptyList
  | .emptyList, .listOf item => .ok (.listOf item)
  | .listOf item, .emptyList => .ok (.listOf item)
  | .listOf seen, .listOf item => (seen.merge? item).map .listOf
  | seen, shape => if seen = shape then .ok seen else .error ⟨shape.kind, seen.kind⟩

mutual

def of? : PropertyValue → Except Incomparable Shape
  | .boolean _ => .ok .boolean
  | .integer _ => .ok .integer
  | .float _ => .ok .float
  | .string _ => .ok .string
  | .list items => ofItems? .emptyList items

def ofItems? (seen : Shape) : List PropertyValue → Except Incomparable Shape
  | [] => .ok seen
  | item :: rest =>
      match of? item with
      | .error e => .error e
      | .ok shape =>
          match seen.merge? (.listOf shape) with
          | .error e => .error e
          | .ok merged => ofItems? merged rest

end

end Shape

end PropertyGraph
