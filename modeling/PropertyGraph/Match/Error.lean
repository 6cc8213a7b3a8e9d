import PropertyGraph.Pattern.Check
import PropertyGraph.Store

namespace PropertyGraph

inductive MatchError where
  | invalidPattern (fault : PatternFault)
  | kindMismatch (name : String) (expected found : VariableKind)
  | pivotOutside (position : Nat)
  | predicate (text : String)
  | graph (e : GraphError)
  /-- The program is aborted at an index outside a list. -/
  | outOfBounds (position length : Nat)
  deriving DecidableEq, Repr

namespace MatchError

@[match_pattern]
abbrev incomparable (e : Incomparable) : MatchError := .graph (.incomparable e)

def message : MatchError → String
  | .invalidPattern fault => "Invalid pattern: " ++ fault.message
  | .kindMismatch name expected found =>
      "Variable '" ++ name ++ "' is bound to a " ++ found.text ++ ", expected a " ++ expected.text
  | .pivotOutside position =>
      "Pivot position " ++ toString position ++ " is outside the pattern"
  | .predicate text => "Predicate error: " ++ text
  | .graph e => "Graph error: " ++ e.message
  | .outOfBounds position length =>
      "index out of bounds: the len is " ++ toString length ++ " but the index is " ++
        toString position

end MatchError

end PropertyGraph
