import PropertyGraph.Match.Context
import PropertyGraph.Match.Outcome

namespace PropertyGraph

/-- A match: the value at each position, and the variables bound by the run in pattern order. -/
structure Row where
  path : List BoundValue
  bindings : Bindings
  deriving DecidableEq

namespace Row

def get? (row : Row) (name : String) : Option BoundValue := row.bindings.get? name

def has (row : Row) (name : String) : Bool := row.bindings.contains name

def empty : Row := ⟨[], ∅⟩

def join (a b : Row) : Row := ⟨a.path ++ b.path, a.bindings.union b.bindings⟩

def truncate (row : Row) (length bound : Nat) : Row :=
  ⟨row.path.take length, row.bindings.take bound⟩

end Row

abbrev Collector (σ : Type) := Row → Visit σ

namespace Collector

def rows : Collector (List Row) := fun row kept => (kept ++ [row], .next)

def count : Collector Nat := fun _ n => (n + 1, .next)

def filtered {σ : Type} (inner : Collector σ) (accepts? : Bindings → Except String Bool) :
    Collector σ := fun row state =>
  match accepts? row.bindings with
  | .ok true => inner row state
  | .ok false => (state, .next)
  | .error text => (state, .failed (.predicate text))

/-- Stops with the row that reaches the limit; the rows passed on are counted beside the state. -/
def limited {σ : Type} (inner : Collector σ) (limit : Option Nat) : Collector (Nat × σ) :=
  fun row (n, state) =>
    match inner row state with
    | (state, .next) => ((n + 1, state), if limit.any (· ≤ n + 1) then .stop else .next)
    | (state, ended) => ((n + 1, state), ended)

end Collector

end PropertyGraph
