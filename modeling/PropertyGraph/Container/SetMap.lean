import PropertyGraph.Container.InsertionMap
import PropertyGraph.Container.InsertionSet

/-!
Sets of items by key: in key order, or in the order in which the keys came. A key is there only
while its set holds an item.
-/

namespace PropertyGraph

variable {κ α : Type} {cmp : κ → κ → Ordering} [Std.TransCmp cmp]
variable [Ord α] [Std.TransOrd α] [Std.LawfulEqOrd α]

abbrev SetMap (κ α : Type) (cmp : κ → κ → Ordering) [Ord α] [Std.TransOrd α] :=
  Std.ExtTreeMap κ (InsertionSet α) cmp

namespace SetMap

def insertAt (m : SetMap κ α cmp) (k : κ) (a : α) : SetMap κ α cmp :=
  m.insert k ((m[k]?.getD ∅).insert a)

def eraseAt (m : SetMap κ α cmp) (k : κ) (a : α) : SetMap κ α cmp :=
  match m[k]? with
  | none => m
  | some items =>
      let rest := items.erase a
      if rest.isEmpty then m.erase k else m.insert k rest

end SetMap

abbrev GroupMap (κ α : Type) [Ord α] [Std.TransOrd α] := InsertionMap κ (InsertionSet α)

namespace GroupMap

variable [DecidableEq κ]

def insertAt (m : GroupMap κ α) (k : κ) (a : α) : GroupMap κ α :=
  m.insert k (((m.get? k).getD ∅).insert a)

def eraseAt (m : GroupMap κ α) (k : κ) (a : α) : GroupMap κ α :=
  match m.get? k with
  | none => m
  | some items =>
      let rest := items.erase a
      if rest.isEmpty then m.erase k else m.insert k rest

def items (m : GroupMap κ α) : List α := m.values.flatMap InsertionSet.toList

def itemsAt (m : GroupMap κ α) (k : κ) : List α := ((m.get? k).map InsertionSet.toList).getD []

end GroupMap

end PropertyGraph
