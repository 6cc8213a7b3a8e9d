import PropertyGraph.Match.Walk

/-!
The search for paths turn by turn. A turn takes one trail from the stack; it ends the search, or it
leaves a stack of less weight. So the search comes to an end whatever its visitor does and however
long a path may be, within a number of turns that only the store decides.
-/

namespace PropertyGraph

namespace Trail

variable {σ : Type} (s : Store) (direction : Direction) (filter : EdgeFilter) (length : HopRange)
  (origin : WalkOrigin) (visit : List EdgeId → NodeId → Visit σ)

def turn : List Trail → σ → (σ × Outcome) ⊕ (List Trail × σ)
  | [], state => .inl (state, .next)
  | t :: rest, state =>
      match t.offer length visit state with
      | (state, .next) =>
          if t.closed || !length.canExtend t.edges.length then .inr (rest, state)
          else
            match s.expand? t.last direction filter with
            | .error e => .inl (state, .failed (.incomparable e))
            | .ok steps => .inr (t.extensions origin steps ++ rest, state)
      | ended => .inl ended

def turns : Nat → List Trail → σ → Option (σ × Outcome)
  | 0, _, _ => none
  | n + 1, stack, state =>
      match turn s direction filter length origin visit stack state with
      | .inl ended => some ended
      | .inr (stack, state) => turns n stack state

variable {s direction filter length origin visit} {stack : List Trail} {state : σ}

theorem search_eq_turn (stack : List Trail) (state : σ) :
    search s direction filter length origin visit stack state =
      match turn s direction filter length origin visit stack state with
      | .inl ended => ended
      | .inr (stack, state) => search s direction filter length origin visit stack state := by
  cases stack with
  | nil => rw [search, turn]
  | cons t rest =>
      rw [search, turn]
      cases t.offer length visit state with
      | mk state' answer =>
          cases answer with
          | next =>
              simp only
              split
              · rfl
              · split <;> rename_i expanded <;> simp only [expanded]
          | stop => rfl
          | failed e => rfl

theorem totalWeight_turn_lt {later : List Trail × σ}
    (turned : turn s direction filter length origin visit stack state = .inr later) :
    totalWeight s (s.totalDegree direction filter) later.1 <
      totalWeight s (s.totalDegree direction filter) stack := by
  cases stack with
  | nil => cases turned
  | cons t rest =>
      have pos := t.weight_pos s (s.totalDegree direction filter)
      rw [turn] at turned
      split at turned
      · split at turned
        · cases turned
          simp only [totalWeight, sumOver]
          omega
        · split at turned
          · cases turned
          · rename_i expanded
            cases turned
            have grown := totalWeight_extensions_lt origin expanded
            simp only [totalWeight, sumOver_append, sumOver] at grown ⊢
            omega
      · cases turned

theorem turns_eq_search {n : Nat}
    (room : totalWeight s (s.totalDegree direction filter) stack < n) :
    turns s direction filter length origin visit n stack state =
      some (search s direction filter length origin visit stack state) := by
  induction n generalizing stack state with
  | zero => exact absurd room (Nat.not_lt_zero _)
  | succ n ih =>
      rw [turns, search_eq_turn]
      cases turned : turn s direction filter length origin visit stack state with
      | inl ended => rfl
      | inr later =>
          have less := totalWeight_turn_lt turned
          exact ih (Nat.lt_of_lt_of_le less (Nat.le_of_lt_succ room))

theorem totalWeight_ofStart (start : NodeId) (degree : Nat) :
    totalWeight s degree [ofStart origin start] = Nat.pow (degree + 1) s.edges.size := by
  have all : (ofStart origin start).unused s = s.edges.size := by
    rw [unused, List.filter_eq_self.mpr (by simp [ofStart]), List.length_range]
  rw [totalWeight, sumOver, sumOver, weight, all]
  rfl

end Trail

namespace Store

/-- More than the ways to choose, for each edge, one of the steps out of all nodes or none. -/
def turnBound (s : Store) (direction : Direction) (filter : EdgeFilter) : Nat :=
  Nat.pow (s.totalDegree direction filter + 1) s.edges.size + 1

theorem turns_eq_enumeratePaths {σ : Type} (s : Store) (start : NodeId) (direction : Direction)
    (filter : EdgeFilter) (length : HopRange) (origin : WalkOrigin)
    (visit : List EdgeId → NodeId → Visit σ) (state : σ) :
    Trail.turns s direction filter length origin visit (s.turnBound direction filter)
        [.ofStart origin start] state =
      some (s.enumeratePaths start direction filter length origin visit state) := by
  refine Trail.turns_eq_search ?_
  rw [Trail.totalWeight_ofStart]
  exact Nat.lt_succ_self _

theorem enumeratePaths_of_turns {σ : Type} {s : Store} {start : NodeId} {direction : Direction}
    {filter : EdgeFilter} {length : HopRange} {origin : WalkOrigin}
    {visit : List EdgeId → NodeId → Visit σ} {state : σ} {ended : σ × Outcome}
    (turned : Trail.turns s direction filter length origin visit (s.turnBound direction filter)
      [.ofStart origin start] state = some ended) :
    s.enumeratePaths start direction filter length origin visit state = ended := by
  rw [turns_eq_enumeratePaths] at turned
  exact Option.some.inj turned

end Store

end PropertyGraph
