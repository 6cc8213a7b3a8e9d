import PropertyGraph.Match.Operator

/-!
Plans. A plan starts at one position, the pivot, walks to the right end of the pattern and then from
the pivot to its left end, so that every step but the first stands beside a position already bound.
Unless it is forced, the pivot is the position with the smallest known number of candidates.
-/

namespace PropertyGraph

structure Plan where
  pivot : Nat
  steps : List Operator
  deriving DecidableEq

def Plan.execute {σ : Type} (g : Graph) (scope : Scope) (plan : Plan) (sink : Visit (Progress σ)) :
    Visit (Progress σ) :=
  plan.steps.foldr (fun operator next => operator.run g scope next) sink

def Plan.text (plan : Plan) : List String := plan.steps.map Operator.text

def leastBound : Option Nat → Option Nat → Option Nat
  | none, b => b
  | a, none => a
  | some a, some b => some (min a b)

def Scope.bound? (scope : Scope) (name : String) : Option Nat :=
  if scope.pinned.contains name then some 1 else scope.symbols[name]?.map PatternSymbol.size

namespace Element

/-- A bound on the candidates for an element, if one is known; paths of several edges have none. -/
def estimate? (element : Element) (g : Graph) (scope : Scope) : Except Incomparable (Option Nat) :=
  let named := element.name.bind scope.bound?
  match element with
  | .node pattern => (g.estimateNodes? pattern.filter).map (leastBound · named)
  | .edge pattern =>
      if pattern.length.isSingleHop then
        (g.estimateEdges? pattern.filter).map (leastBound · named)
      else .ok none

def startOperator (element : Element) (position : Nat) : Operator :=
  match element with
  | .node pattern => .nodeScan position pattern
  | .edge pattern =>
      if pattern.length.isSingleHop then .edgeScan position pattern
      else .varLengthExpand position none true pattern

def stepOperator (element : Element) (position anchor : Nat) (forward : Bool) : Operator :=
  match element with
  | .node pattern => .edgeEndpoint position anchor forward pattern
  | .edge pattern =>
      if pattern.length.isSingleHop then .expandEdge position anchor forward pattern
      else .varLengthExpand position (some anchor) forward pattern

end Element

namespace PathPattern

def elementAt? (p : PathPattern) (position : Nat) : Except MatchError Element :=
  match p.element? position with
  | none => .error (.pivotOutside position)
  | some element => .ok element

def estimate? (p : PathPattern) (position : Nat) (g : Graph) (scope : Scope) :
    Except MatchError (Option Nat) :=
  match p.elementAt? position with
  | .error e => .error e
  | .ok element => (element.estimate? g scope).mapError .incomparable

def fastestAmong? (p : PathPattern) (g : Graph) (scope : Scope) (best : Option (Nat × Nat)) :
    List Nat → Except MatchError (Option (Nat × Nat))
  | [] => .ok best
  | position :: rest =>
      match p.estimate? position g scope with
      | .error e => .error e
      | .ok none => p.fastestAmong? g scope best rest
      | .ok (some size) =>
          let better := best.all fun (_, smallest) => size < smallest
          p.fastestAmong? g scope (if better then some (position, size) else best) rest

/-- The first position with the smallest known estimate, the first of all when none is known. -/
def fastestPosition? (p : PathPattern) (g : Graph) (scope : Scope) : Except MatchError Nat :=
  (p.fastestAmong? g scope none (List.range p.length)).map fun best =>
    (best.map Prod.fst).getD 0

def stepsAt? (p : PathPattern) (forward : Bool) : List Nat → Except MatchError (List Operator)
  | [] => .ok []
  | position :: rest =>
      match p.elementAt? position with
      | .error e => .error e
      | .ok element =>
          let anchor := if forward then position - 1 else position + 1
          (p.stepsAt? forward rest).map (element.stepOperator position anchor forward :: ·)

def rightOf (p : PathPattern) (pivot : Nat) : List Nat :=
  (List.range (p.length - (pivot + 1))).map (pivot + 1 + ·)

def leftOf (pivot : Nat) : List Nat := (List.range pivot).reverse

def layOut? (p : PathPattern) (pivot : Nat) : Except MatchError Plan :=
  match p.elementAt? pivot with
  | .error e => .error e
  | .ok element =>
      match p.stepsAt? true (p.rightOf pivot) with
      | .error e => .error e
      | .ok right =>
          (p.stepsAt? false (leftOf pivot)).map fun left =>
            ⟨pivot, element.startOperator pivot :: (right ++ left)⟩

def plan? (p : PathPattern) (g : Graph) (scope : Scope) (pivot : Option Nat) :
    Except MatchError Plan :=
  match pivot with
  | some pivot => if pivot < p.length then p.layOut? pivot else .error (.pivotOutside pivot)
  | none =>
      match p.fastestPosition? g scope with
      | .error e => .error e
      | .ok pivot => p.layOut? pivot

end PathPattern

end PropertyGraph
