import Std.Data.ExtTreeMap

/-!
Candidates: what an access path offers, with a bound on its size that is known before anything is
looked at. A full scan has no bound.
-/

namespace PropertyGraph

structure Candidates (α : Type) where
  items : List α
  maxSize : Option Nat
  deriving DecidableEq, Repr

namespace Candidates

variable {α : Type}

def empty : Candidates α := ⟨[], some 0⟩

def isSmallerThan (a b : Candidates α) : Bool :=
  match a.maxSize, b.maxSize with
  | some m, some n => m < n
  | some _, none => true
  | none, _ => false

def text (c : Candidates α) : String :=
  let bound := match c.maxSize with
    | none => "None"
    | some n => "Some(" ++ toString n ++ ")"
  "Candidates \x7b max_size: " ++ bound ++ ", .. \x7d"

end Candidates

end PropertyGraph
