import PropertyGraph.Pattern

namespace PropertyGraph

inductive PatternFault where
  | emptyRange (position : Nat) (min : Option Nat) (max : Nat)
  | mixedKinds (name : String)
  | noParts
  | unboundPosition (position : Nat)
  | worded (text : String)
  deriving DecidableEq, Repr

def PatternFault.message : PatternFault → String
  | .emptyRange position min max =>
      let lower := match min with
        | none => "None"
        | some n => "Some(" ++ toString n ++ ")"
      "edge at position " ++ toString position ++ " has empty length range " ++ lower ++ ".." ++
        toString max
  | .mixedKinds name => "variable '" ++ name ++ "' is used for both a node and an edge"
  | .noParts => "match clause has no parts"
  | .unboundPosition position =>
      "position " ++ toString position ++ " was not bound before use"
  | .worded text => text

namespace Element

def rangeFault? (position : Nat) : Element → Option PatternFault
  | .node _ => none
  | .edge pattern =>
      match pattern.length.max with
      | none => none
      | some max =>
          if max < pattern.length.minHops then some (.emptyRange position pattern.length.min max)
          else none

/-- The first fault from a position on, given the names before it; at one position the range is
looked at before the name. -/
def firstFault? (position : Nat) (seen : List (String × VariableKind)) :
    List Element → Option PatternFault
  | [] => none
  | element :: rest =>
      match element.rangeFault? position with
      | some fault => some fault
      | none =>
          match element.name with
          | none => firstFault? (position + 1) seen rest
          | some name =>
              match seen.lookup name with
              | none => firstFault? (position + 1) ((name, element.kind) :: seen) rest
              | some kind =>
                  if kind = element.kind then firstFault? (position + 1) seen rest
                  else some (.mixedKinds name)

end Element

namespace PathPattern

def fault? (p : PathPattern) : Option PatternFault := Element.firstFault? 0 [] p.elements

def validate (p : PathPattern) : Except PatternFault Unit :=
  match p.fault? with
  | none => .ok ()
  | some fault => .error fault

end PathPattern

end PropertyGraph
