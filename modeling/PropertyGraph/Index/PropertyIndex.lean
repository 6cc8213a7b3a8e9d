import PropertyGraph.Container.SetMap
import PropertyGraph.Index.Shape
import PropertyGraph.Value.Order

/-!
An index from the values of a property to the items that hold them, in value order. It takes values
of one shape only, so that its values can be compared with one another; an index that has lost all
its values takes any shape again.
-/

namespace PropertyGraph

structure PropertyIndex (α : Type) [Ord α] [Std.TransOrd α] where
  entries : SetMap PropertyValue α PropertyValue.order
  shape : Option Shape

namespace PropertyIndex

variable {α : Type} [Ord α] [Std.TransOrd α]

def empty : PropertyIndex α := ⟨∅, none⟩

instance : EmptyCollection (PropertyIndex α) := ⟨empty⟩

def shapeWith? (index : PropertyIndex α) (value : PropertyValue) : Except Incomparable Shape :=
  match Shape.of? value, index.shape with
  | .error e, _ => .error e
  | .ok shape, none => .ok shape
  | .ok shape, some seen => seen.merge? shape

def check? (index : PropertyIndex α) (value : PropertyValue) : Except Incomparable Unit :=
  (index.shapeWith? value).map fun _ => ()

/-- The holders of a value; a value that the index could not take cannot be asked for. -/
def get? (index : PropertyIndex α) (value : PropertyValue) :
    Except Incomparable (Option (InsertionSet α)) :=
  (index.check? value).map fun _ => index.entries[value]?

def count? (index : PropertyIndex α) (value : PropertyValue) : Except Incomparable Nat :=
  (index.get? value).map fun holders => (holders.map InsertionSet.size).getD 0

def toList (index : PropertyIndex α) : List (PropertyValue × InsertionSet α) := index.entries.toList

def size (index : PropertyIndex α) : Nat := index.entries.size

def isEmpty (index : PropertyIndex α) : Bool := index.entries.isEmpty

variable [Std.LawfulEqOrd α]

def insert? (index : PropertyIndex α) (value : PropertyValue) (a : α) :
    Except Incomparable (PropertyIndex α) :=
  (index.shapeWith? value).map fun shape =>
    { entries := SetMap.insertAt index.entries value a, shape := some shape }

def erase (index : PropertyIndex α) (value : PropertyValue) (a : α) : PropertyIndex α :=
  let entries := SetMap.eraseAt index.entries value a
  { entries, shape := if entries.isEmpty then none else index.shape }

end PropertyIndex

end PropertyGraph
