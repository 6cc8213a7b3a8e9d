import Std.Data.ExtTreeMap
import Std.Data.ExtTreeSet

namespace PropertyGraph

structure NodeId where
  index : Nat
  deriving DecidableEq, Repr

structure EdgeId where
  index : Nat
  deriving DecidableEq, Repr

structure Label where
  name : String
  deriving DecidableEq, Repr

structure EdgeType where
  name : String
  deriving DecidableEq, Repr

namespace NodeId

instance : Ord NodeId := ⟨fun a b => compare a.index b.index⟩

instance : Std.TransOrd NodeId where
  eq_swap {a b} := Std.OrientedOrd.eq_swap (a := a.index) (b := b.index)
  isLE_trans {a b c} := Std.TransOrd.isLE_trans (a := a.index) (b := b.index) (c := c.index)

instance : Std.LawfulEqOrd NodeId where
  compare_self {a} := Std.ReflOrd.compare_self (a := a.index)
  eq_of_compare {a b} h := by
    cases a; cases b
    exact congrArg NodeId.mk (Std.LawfulEqOrd.eq_of_compare h)

def text (id : NodeId) : String := "NodeId(" ++ toString id.index ++ ")"

end NodeId

namespace EdgeId

instance : Ord EdgeId := ⟨fun a b => compare a.index b.index⟩

instance : Std.TransOrd EdgeId where
  eq_swap {a b} := Std.OrientedOrd.eq_swap (a := a.index) (b := b.index)
  isLE_trans {a b c} := Std.TransOrd.isLE_trans (a := a.index) (b := b.index) (c := c.index)

instance : Std.LawfulEqOrd EdgeId where
  compare_self {a} := Std.ReflOrd.compare_self (a := a.index)
  eq_of_compare {a b} h := by
    cases a; cases b
    exact congrArg EdgeId.mk (Std.LawfulEqOrd.eq_of_compare h)

def text (id : EdgeId) : String := "EdgeId(" ++ toString id.index ++ ")"

end EdgeId

namespace Label

instance : Ord Label := ⟨fun a b => compare a.name b.name⟩

instance : Std.TransOrd Label where
  eq_swap {a b} := Std.OrientedOrd.eq_swap (a := a.name) (b := b.name)
  isLE_trans {a b c} := Std.TransOrd.isLE_trans (a := a.name) (b := b.name) (c := c.name)

instance : Std.LawfulEqOrd Label where
  compare_self {a} := Std.ReflOrd.compare_self (a := a.name)
  eq_of_compare {a b} h := by
    cases a; cases b
    exact congrArg Label.mk (Std.LawfulEqOrd.eq_of_compare h)

end Label

namespace EdgeType

instance : Ord EdgeType := ⟨fun a b => compare a.name b.name⟩

instance : Std.TransOrd EdgeType where
  eq_swap {a b} := Std.OrientedOrd.eq_swap (a := a.name) (b := b.name)
  isLE_trans {a b c} := Std.TransOrd.isLE_trans (a := a.name) (b := b.name) (c := c.name)

instance : Std.LawfulEqOrd EdgeType where
  compare_self {a} := Std.ReflOrd.compare_self (a := a.name)
  eq_of_compare {a b} h := by
    cases a; cases b
    exact congrArg EdgeType.mk (Std.LawfulEqOrd.eq_of_compare h)

end EdgeType

abbrev LabelSet := Std.ExtTreeSet Label

def LabelSet.ofList (labels : List Label) : LabelSet :=
  labels.foldl (fun set label => set.insert label) ∅

end PropertyGraph
