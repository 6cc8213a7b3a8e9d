import PropertyGraph.Index.PropertyIndex
import PropertyGraph.Properties

namespace PropertyGraph

abbrev IndexCatalog (α : Type) [Ord α] [Std.TransOrd α] :=
  Std.ExtTreeMap String (PropertyIndex α)

namespace IndexCatalog

variable {α : Type} [Ord α] [Std.TransOrd α]

def has (indexes : IndexCatalog α) (key : String) : Bool := indexes.contains key

def create (indexes : IndexCatalog α) (key : String) : IndexCatalog α × Bool :=
  if indexes.has key then (indexes, false) else (indexes.insert key ∅, true)

def drop (indexes : IndexCatalog α) (key : String) : IndexCatalog α × Bool :=
  (indexes.erase key, indexes.has key)

def check? (indexes : IndexCatalog α) (key : String) (value : PropertyValue) :
    Except Incomparable Unit :=
  match indexes[key]? with
  | none => .ok ()
  | some index => index.check? value

def checkEach? (indexes : IndexCatalog α) :
    List (String × PropertyValue) → Except Incomparable Unit
  | [] => .ok ()
  | (key, value) :: rest =>
      match indexes.check? key value with
      | .ok () => checkEach? indexes rest
      | .error e => .error e

def checkAll? (indexes : IndexCatalog α) (props : Properties) : Except Incomparable Unit :=
  indexes.checkEach? props.toList

variable [Std.LawfulEqOrd α]

def insert? (indexes : IndexCatalog α) (key : String) (value : PropertyValue) (a : α) :
    Except Incomparable (IndexCatalog α) :=
  match indexes[key]? with
  | none => .ok indexes
  | some index => (index.insert? value a).map fun index => Std.ExtTreeMap.insert indexes key index

def remove (indexes : IndexCatalog α) (key : String) (value : PropertyValue) (a : α) :
    IndexCatalog α :=
  match indexes[key]? with
  | none => indexes
  | some index => Std.ExtTreeMap.insert indexes key (index.erase value a)

def insertEach (indexes : IndexCatalog α) (a : α) :
    List (String × PropertyValue) → IndexCatalog α × Except Incomparable Unit
  | [] => (indexes, .ok ())
  | (key, value) :: rest =>
      match indexes.insert? key value a with
      | .ok indexes => insertEach indexes a rest
      | .error e => (indexes, .error e)

def insertAll (indexes : IndexCatalog α) (props : Properties) (a : α) :
    IndexCatalog α × Except Incomparable Unit :=
  indexes.insertEach a props.toList

def removeAll (indexes : IndexCatalog α) (props : Properties) (a : α) : IndexCatalog α :=
  props.toList.foldl (fun indexes pair => indexes.remove pair.1 pair.2 a) indexes

/-- Moves `a` from its old value of a property to a new one. When the new one is refused, `a` goes
back to the old one, behind the other holders. -/
def replace (indexes : IndexCatalog α) (key : String) (old : Option PropertyValue)
    (new : PropertyValue) (a : α) : IndexCatalog α × Except Incomparable Unit :=
  let cleared := match old with
    | none => indexes
    | some value => indexes.remove key value a
  match cleared.insert? key new a with
  | .ok filed => (filed, .ok ())
  | .error e =>
      match old with
      | none => (cleared, .error e)
      | some value =>
          match cleared.insert? key value a with
          | .ok restored => (restored, .error e)
          | .error e => (cleared, .error e)

def fill (indexes : IndexCatalog α) (key : String) :
    List (PropertyValue × α) → IndexCatalog α × Except Incomparable Unit
  | [] => (indexes, .ok ())
  | (value, a) :: rest =>
      match indexes.insert? key value a with
      | .ok indexes => fill indexes key rest
      | .error e => (indexes, .error e)

/-- Creates the index on a property, if there is none, and fills it. When a value is refused, no
index is left behind. -/
def build (indexes : IndexCatalog α) (key : String) (holders : List (PropertyValue × α)) :
    IndexCatalog α × Except Incomparable Unit :=
  match indexes.create key with
  | (indexes, false) => (indexes, .ok ())
  | (created, true) =>
      match created.fill key holders with
      | (filled, .ok ()) => (filled, .ok ())
      | (filled, .error e) => ((filled.drop key).1, .error e)

end IndexCatalog

end PropertyGraph
