import PropertyGraph.Match.Collector
import PropertyGraph.Match.Plan

/-!
Running a pattern against a graph, and running a clause of several patterns. A clause runs its parts
from left to right; what one part binds is pinned for those after it, so that a name shared by two
parts joins them. All parts build up one row, which each of them extends and cuts back.
-/

namespace PropertyGraph

structure MatchOptions where
  pivot : Option Nat
  limit : Option Nat
  deriving DecidableEq, Repr

def MatchOptions.none : MatchOptions := ⟨.none, .none⟩

/-- A run that was stopped has succeeded. -/
def Outcome.result : Outcome → Except MatchError Unit
  | .next => .ok ()
  | .stop => .ok ()
  | .failed e => .error e

def Scope.kind? (scope : Scope) (name : String) : Option VariableKind :=
  match scope.pinned.get? name with
  | some value => some value.kind
  | none => scope.symbols[name]?.map PatternSymbol.kind

def Scope.checkKinds? (scope : Scope) : List Element → Except MatchError Unit
  | [] => .ok ()
  | element :: rest =>
      match element.name.bind fun name => (scope.kind? name).map fun kind => (name, kind) with
      | none => scope.checkKinds? rest
      | some (name, kind) =>
          if kind = element.kind then scope.checkKinds? rest
          else .error (.kindMismatch name element.kind kind)

namespace PathPattern

variable {σ : Type}

def check? (p : PathPattern) (scope : Scope) : Except MatchError Unit :=
  match p.fault? with
  | some fault => .error (.invalidPattern fault)
  | none => scope.checkKinds? p.elements

def emit (p : PathPattern) (collector : Collector σ) : Visit (Progress σ) := fun progress =>
  let row : Row := ⟨progress.context.pathValues, progress.context.rowBindings p.names⟩
  let (gathered, outcome) := collector row progress.gathered
  ({ progress with gathered }, outcome)

def search (p : PathPattern) (g : Graph) (scope : Scope) (options : MatchOptions)
    (collector : Collector σ) : Visit σ := fun state =>
  match p.check? scope with
  | .error e => (state, .failed e)
  | .ok () =>
      if options.limit = some 0 then (state, .stop)
      else
        match p.plan? g scope options.pivot with
        | .error e => (state, .failed e)
        | .ok plan =>
            let sink := p.emit (collector.limited options.limit)
            let (progress, outcome) := plan.execute g scope sink ⟨.empty p.length, 0, state⟩
            (progress.gathered.2, outcome)

/-- Matches the pattern; names that are symbols only take members of their symbol. -/
def run (p : PathPattern) (g : Graph) (symbols : Symbols) (options : MatchOptions)
    (collector : Collector σ) (state : σ) : σ × Except MatchError Unit :=
  let (state, outcome) := p.search g ⟨symbols, ∅⟩ options collector state
  (state, outcome.result)

end PathPattern

structure Clause where
  parts : List PathPattern
  deriving DecidableEq

structure Assembly (σ : Type) where
  row : Row
  gathered : σ

namespace Clause

variable {σ : Type}

/-- Extends the row by the rows of the parts, in every way. A part runs under the bindings with which
it was entered. -/
def runFrom (g : Graph) (symbols : Symbols) (collector : Collector σ) :
    List PathPattern → Visit (Assembly σ)
  | [], assembly =>
      let (gathered, outcome) := collector assembly.row assembly.gathered
      ({ assembly with gathered }, outcome)
  | part :: rest, assembly =>
      let forward : Collector (Assembly σ) := fun found ⟨row, gathered⟩ =>
        let (after, outcome) := runFrom g symbols collector rest ⟨row.join found, gathered⟩
        -- Whatever the answer is, what was added for this match is cut off again.
        (⟨after.row.truncate row.path.length row.bindings.size, after.gathered⟩, outcome)
      part.search g ⟨symbols, assembly.row.bindings⟩ .none forward assembly

/-- Matches all parts together. Pivots are not forced across parts; only the limit applies. -/
def run (clause : Clause) (g : Graph) (symbols : Symbols) (options : MatchOptions)
    (collector : Collector σ) (state : σ) : σ × Except MatchError Unit :=
  if clause.parts.isEmpty then (state, .error (.invalidPattern .noParts))
  else if options.limit = some 0 then (state, .ok ())
  else
    let (assembly, outcome) :=
      runFrom g symbols (collector.limited options.limit) clause.parts ⟨.empty, 0, state⟩
    (assembly.gathered.2, outcome.result)

end Clause

end PropertyGraph
