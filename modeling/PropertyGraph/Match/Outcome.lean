import PropertyGraph.Match.Error

namespace PropertyGraph

inductive Outcome where
  | next
  | stop
  | failed (e : MatchError)
  deriving DecidableEq, Repr

/-- What is done at one point of a search: a change of its state, and how to go on. -/
abbrev Visit (σ : Type) := σ → σ × Outcome

def visitAll {α σ : Type} (visit : α → Visit σ) : List α → Visit σ
  | [], s => (s, .next)
  | a :: rest, s =>
      match visit a s with
      | (s, .next) => visitAll visit rest s
      | ended => ended

def visitFound {α σ : Type} (visit : α → Visit σ) (found : List (Except Incomparable α)) :
    Visit σ :=
  visitAll (fun item s =>
    match item with
    | .ok a => visit a s
    | .error e => (s, .failed (.incomparable e))) found

end PropertyGraph
