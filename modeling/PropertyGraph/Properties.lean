import PropertyGraph.Value.Order
import Std.Data.ExtTreeMap

namespace PropertyGraph

abbrev Properties := Std.ExtTreeMap String PropertyValue

namespace Properties

/-- The pairs as a map; a later pair replaces an earlier one of the same name. -/
def ofPairs (pairs : List (String × PropertyValue)) : Properties :=
  pairs.foldl (fun props pair => props.insert pair.1 pair.2) ∅

/-- Whether the properties hold every constraint. Constraints are tried in order, and the first that
is missing, unequal or incomparable decides. -/
def satisfies? (props : Properties) : List (String × PropertyValue) → Except Incomparable Bool
  | [] => .ok true
  | (key, expected) :: rest =>
      match props[key]? with
      | none => .ok false
      | some actual =>
          match actual.same? expected with
          | .ok true => props.satisfies? rest
          | decided => decided

end Properties

end PropertyGraph
