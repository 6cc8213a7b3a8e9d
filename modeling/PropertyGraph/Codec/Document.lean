import PropertyGraph.Number.Binary64

/-!
Documents: the trees in which values are written down for storage, and the forms that all types
share. A choice among cases is a document with one field, named for the case; a record is a
document with its fields, or the list of them in order; an absent number is null.
-/

namespace PropertyGraph

inductive Document where
  | null
  | bool (b : Bool)
  | int (n : Int)
  | real (x : Binary64)
  | text (s : String)
  | list (items : List Document)
  | fields (entries : List (String × Document))
  deriving Inhabited

class Codec (α : Type) where
  read? : Document → Option α
  write : α → Document

export Codec (read? write)

namespace Document

def case? : Document → Option (String × Document)
  | .fields [(name, content)] => some (name, content)
  | _ => none

/-- The case of a choice without content, which is its name alone or its name with null. -/
def bareCase? : Document → Option String
  | .text name => some name
  | .fields [(name, .null)] => some name
  | _ => none

def ofCase (name : String) (content : Document) : Document := .fields [(name, content)]

/-- The fields of the given names in order, other fields passed over. A list gives the fields by
their places; it may be as short as `least`. -/
def record? (names : List String) (least : Nat) : Document → Option (List (Option Document))
  | .list items =>
      if least ≤ items.length ∧ items.length ≤ names.length then
        some ((List.range names.length).map fun i => items[i]?)
      else none
  | .fields entries => some (names.map fun name => entries.lookup name)
  | _ => none

def wholeRecord? (names : List String) (document : Document) : Option (List Document) :=
  (document.record? names names.length).bind fun found => found.mapM id

def list? : Document → Option (List Document)
  | .list items => some items
  | _ => none

def entries? : Document → Option (List (String × Document))
  | .fields entries => some entries
  | _ => none

end Document

namespace Codec

instance : Codec Nat where
  read?
    | .int n => if 0 ≤ n ∧ n < 0x10000000000000000 then some n.toNat else none
    | _ => none
  write n := .int n

instance : Codec Int where
  read?
    | .int n => if -0x8000000000000000 ≤ n ∧ n < 0x8000000000000000 then some n else none
    | _ => none
  write n := .int n

instance : Codec String where
  read?
    | .text s => some s
    | _ => none
  write s := .text s

instance : Codec Bool where
  read?
    | .bool b => some b
    | _ => none
  write b := .bool b

/-- An integer is read as the nearest double. -/
instance : Codec Binary64 where
  read?
    | .real x => some x
    | .int n => some (.ofInt n)
    | _ => none
  write x := .real x

variable {α : Type} [Codec α]

instance : Codec (Option α) where
  read?
    | .null => some none
    | document => (read? document).map some
  write
    | none => .null
    | some a => write a

instance : Codec (List α) where
  read? document := document.list?.bind fun items => items.mapM read?
  write items := .list (items.map write)

def readEntries? (document : Document) : Option (List (String × α)) :=
  document.entries?.bind fun entries => entries.mapM fun (key, content) =>
    (read? content).map fun a => (key, a)

def writeEntries (entries : List (String × α)) : Document :=
  .fields (entries.map fun (key, a) => (key, write a))

end Codec

end PropertyGraph
