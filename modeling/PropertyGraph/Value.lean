import PropertyGraph.Number.Decimal

/-!
Property values: scalars of four kinds and lists of values, possibly mixed. Two values are
compared when their kinds agree; the total order of all values, which ordered containers use,
agrees with the comparison wherever that one is defined.
-/

namespace PropertyGraph

inductive ValueKind where
  | boolean
  | integer
  | float
  | string
  | list
  deriving DecidableEq, Repr

namespace ValueKind

def name : ValueKind → String
  | .boolean => "Boolean"
  | .integer => "Integer"
  | .float => "Float"
  | .string => "String"
  | .list => "List"

def rank : ValueKind → Nat
  | .boolean => 0
  | .integer => 1
  | .float => 2
  | .string => 3
  | .list => 4

end ValueKind

structure Incomparable where
  left : ValueKind
  right : ValueKind
  deriving DecidableEq, Repr

def Incomparable.message (e : Incomparable) : String :=
  "Incomparable values: " ++ e.left.name ++ " and " ++ e.right.name

inductive PropertyValue where
  | boolean (b : Bool)
  | integer (i : Int)
  | float (x : Binary64)
  | string (s : String)
  | list (items : List PropertyValue)
  deriving Repr

namespace PropertyValue

def kind : PropertyValue → ValueKind
  | .boolean _ => .boolean
  | .integer _ => .integer
  | .float _ => .float
  | .string _ => .string
  | .list _ => .list

def boolean? : PropertyValue → Option Bool
  | .boolean b => some b
  | _ => none

def integer? : PropertyValue → Option Int
  | .integer i => some i
  | _ => none

def float? : PropertyValue → Option Binary64
  | .float x => some x
  | _ => none

def string? : PropertyValue → Option String
  | .string s => some s
  | _ => none

def list? : PropertyValue → Option (List PropertyValue)
  | .list items => some items
  | _ => none

mutual

/-- Values of one kind are ordered by that kind's order; lists item by item, where the first pair
of items that differs decides, a pair of two kinds being an error, and a shorter list comes before
its extensions. -/
def compare? : PropertyValue → PropertyValue → Except Incomparable Ordering
  | .boolean a, .boolean b => .ok (compare a b)
  | .integer a, .integer b => .ok (compare a b)
  | .float a, .float b => .ok (a.totalCompare b)
  | .string a, .string b => .ok (compare a b)
  | .list a, .list b => compareItems? a b
  | a, b => .error ⟨a.kind, b.kind⟩

def compareItems? : List PropertyValue → List PropertyValue → Except Incomparable Ordering
  | [], [] => .ok .eq
  | [], _ :: _ => .ok .lt
  | _ :: _, [] => .ok .gt
  | a :: as, b :: bs =>
      match a.compare? b with
      | .ok .eq => compareItems? as bs
      | decided => decided

end

/-- Equality by comparison: values of two kinds are an error, not unequal. -/
def same? (a b : PropertyValue) : Except Incomparable Bool :=
  (a.compare? b).map (· == .eq)

mutual

/-- The total order of all values: by kind first, and lists item by item. -/
def order : PropertyValue → PropertyValue → Ordering
  | .boolean a, .boolean b => compare a b
  | .integer a, .integer b => compare a b
  | .float a, .float b => a.totalCompare b
  | .string a, .string b => compare a b
  | .list a, .list b => orderItems a b
  | a, b => compare a.kind.rank b.kind.rank

def orderItems : List PropertyValue → List PropertyValue → Ordering
  | [], [] => .eq
  | [], _ :: _ => .lt
  | _ :: _, [] => .gt
  | a :: as, b :: bs => (a.order b).then (orderItems as bs)

end

mutual

/-- Equality that takes floats as numbers; values of two kinds are unequal. -/
def numericEq : PropertyValue → PropertyValue → Bool
  | .boolean a, .boolean b => a == b
  | .integer a, .integer b => a == b
  | .float a, .float b => a.numericEq b
  | .string a, .string b => a == b
  | .list a, .list b => numericEqItems a b
  | _, _ => false

def numericEqItems : List PropertyValue → List PropertyValue → Bool
  | [], [] => true
  | a :: as, b :: bs => a.numericEq b && numericEqItems as bs
  | _, _ => false

end

mutual

/-- The text of a value: strings between quotes as they are, items between brackets. -/
def text : PropertyValue → String
  | .boolean b => if b then "true" else "false"
  | .integer i => toString i
  | .float x => x.text
  | .string s => "\"" ++ s ++ "\""
  | .list items => "[" ++ textItems items ++ "]"

def textItems : List PropertyValue → String
  | [] => ""
  | [a] => a.text
  | a :: b :: rest => a.text ++ ", " ++ textItems (b :: rest)

end

end PropertyValue

end PropertyGraph
