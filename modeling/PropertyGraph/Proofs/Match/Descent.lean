import PropertyGraph.Proofs.Match.Paths

/-!
The search for paths by recursion, beside the one with a stack. The trails on the stack are what the
recursion has still to come back to, so the two make the same visits one after the other, whatever
the visitor answers, and end alike: at its first answer that is not to go on, at the first node whose
edges cannot be compared, or when nothing is left.
-/

namespace PropertyGraph

theorem visitAll_filterMap {α β σ : Type} (visit : β → Visit σ) (f : α → Option β) (as : List α)
    (state : σ) : visitAll visit (as.filterMap f) state =
      visitAll (fun a state => match f a with
        | none => (state, .next)
        | some b => visit b state) as state := by
  induction as generalizing state with
  | nil => rfl
  | cons a rest ih =>
      rw [List.filterMap_cons, visitAll]
      cases f a with
      | none => exact ih state
      | some b =>
          dsimp only
          rw [visitAll]
          rcases visit b state with ⟨state', _ | _ | e⟩
          · exact ih state'
          · rfl
          · rfl

theorem visitAll_attach {α σ : Type} (visit : α → Visit σ) (as : List α) (state : σ) :
    visitAll (fun a => visit a.1) as.attach state = visitAll visit as state := by
  have plain := visitAll_map visit Subtype.val as.attach state
  rw [List.attach_map_subtype_val] at plain
  exact plain.symm

theorem Trail.unused_lt_of_edges {s : Store} {t u : Trail} {id : EdgeId} (fresh : id ∉ t.edges)
    (edges : u.edges = t.edges ++ [id]) (bound : id.index < s.edges.size) :
    u.unused s < t.unused s := by
  obtain ⟨v, extended⟩ : ∃ v, t.extend? .start (id, t.last) = some v := by
    rw [extend?, if_neg fresh]
    split <;> exact ⟨_, rfl⟩
  obtain ⟨-, edges_v⟩ := edges_of_extend? extended
  have less := unused_lt extended bound
  rwa [unused, edges_v, ← edges] at less

namespace Store

section Recursion

variable {σ : Type} (s : Store) (direction : Direction) (filter : EdgeFilter) (length : HopRange)
  (origin : WalkOrigin) (visit : List EdgeId → NodeId → Visit σ)

/-- The search from the end of a path. It visits the path if it has a length in the range. It goes no
further when the path is closed or as long as may be; else it takes the edges at the end of the path
in their order, without those that the path uses. A node met before closes the path, or is passed
over by a walk from the last node. -/
def descend (edges : List EdgeId) (visited : List NodeId) (last : NodeId) (closed : Bool) :
    Visit σ := fun state =>
  match if length.contains edges.length then visit edges last state else (state, .next) with
  | (state, .next) =>
      if closed || !length.canExtend edges.length then (state, .next)
      else
        match _h : s.expand? last direction filter with
        | .error e => (state, .failed (.incomparable e))
        | .ok steps =>
            visitAll (fun step state =>
              if _used : step.1.1 ∈ edges then (state, .next)
              else if step.1.2 ∉ visited then
                descend (edges ++ [step.1.1]) (visited ++ [step.1.2]) step.1.2 false state
              else
                match origin with
                | .start => descend (edges ++ [step.1.1]) visited step.1.2 true state
                | .finish => (state, .next)) steps.attach state
  | ended => ended
termination_by (Trail.mk edges visited last closed).unused s
decreasing_by
  all_goals exact Trail.unused_lt_of_edges _used rfl (index_lt_of_mem_expand? _h step.2)

def searchPaths (start : NodeId) : Visit σ :=
  s.descend direction filter length origin visit []
    (match origin with
      | .start => [start]
      | .finish => [])
    start false

end Recursion

end Store

namespace Trail

variable {σ : Type} {s : Store} {direction : Direction} {filter : EdgeFilter} {length : HopRange}
  {origin : WalkOrigin} {visit : List EdgeId → NodeId → Visit σ}

def descend (s : Store) (direction : Direction) (filter : EdgeFilter) (length : HopRange)
    (origin : WalkOrigin) (visit : List EdgeId → NodeId → Visit σ) (t : Trail) : Visit σ :=
  s.descend direction filter length origin visit t.edges t.visited t.last t.closed

theorem offer_eq (t : Trail) (state : σ) : t.offer length visit state =
    if length.contains t.edges.length then visit t.edges t.last state else (state, .next) := by
  rw [offer]
  by_cases fits : length.contains t.edges.length = true
  · have some_edge := List.ne_nil_of_length_pos (HopRange.pos_of_contains fits)
    rw [if_pos ⟨some_edge, fits⟩, if_pos fits]
  · rw [if_neg (fun both => fits both.2), if_neg fits]

theorem visitAll_extensions (t : Trail) (steps : List (EdgeId × NodeId)) (state : σ) :
    visitAll (descend s direction filter length origin visit) (t.extensions origin steps) state =
      visitAll (fun step state =>
        if step.1 ∈ t.edges then (state, .next)
        else if step.2 ∉ t.visited then
          s.descend direction filter length origin visit (t.edges ++ [step.1])
            (t.visited ++ [step.2]) step.2 false state
        else
          match origin with
          | .start => s.descend direction filter length origin visit (t.edges ++ [step.1]) t.visited
              step.2 true state
          | .finish => (state, .next)) steps state := by
  rw [extensions, visitAll_filterMap]
  refine visitAll_congr (fun step _ state => ?_) state
  by_cases used : step.1 ∈ t.edges
  · simp [extend?, used]
  · by_cases met : step.2 ∈ t.visited
    · cases origin <;> simp [extend?, used, met, descend]
    · simp [extend?, used, met, descend]

theorem descend_eq (t : Trail) (state : σ) :
    descend s direction filter length origin visit t state =
      match t.offer length visit state with
      | (state, .next) =>
          if t.closed || !length.canExtend t.edges.length then (state, .next)
          else
            match s.expand? t.last direction filter with
            | .error e => (state, .failed (.incomparable e))
            | .ok steps => visitAll (descend s direction filter length origin visit)
                (t.extensions origin steps) state
      | ended => ended := by
  rw [descend, Store.descend, offer_eq]
  split
  · split
    · rfl
    · split
      · rename_i expanded
        simp only [expanded]
      · rename_i steps expanded
        simp only [expanded, dite_eq_ite]
        rw [visitAll_extensions, ← visitAll_attach _ steps]
  · rfl

theorem search_eq_visitAll_descend (stack : List Trail) (state : σ) :
    search s direction filter length origin visit stack state =
      visitAll (descend s direction filter length origin visit) stack state := by
  induction stack, state using search.induct s direction filter length origin visit with
  | case1 state =>
      rw [search]
      rfl
  | case2 t rest state state' offered ended ih =>
      rw [search_eq_turn, turn, visitAll, descend_eq, offered]
      simpa [ended] using ih
  | case3 t rest state state' offered ongoing e failed =>
      rw [search_eq_turn, turn, visitAll, descend_eq, offered]
      simp [ongoing, failed]
  | case4 t rest state state' offered ongoing steps expanded ih =>
      rw [visitAll_append] at ih
      rw [search_eq_turn, turn, visitAll, descend_eq, offered]
      simp only [ongoing, expanded, Bool.false_eq_true, if_false]
      exact ih
  | case5 t rest state broken_off =>
      rw [search_eq_turn, turn, visitAll, descend_eq]
      rcases offered : t.offer length visit state with ⟨state', _ | _ | e⟩
      · exact absurd offered fun eq => broken_off state' eq
      · rfl
      · rfl

end Trail

theorem Store.enumeratePaths_eq_searchPaths {σ : Type} (s : Store) (start : NodeId)
    (direction : Direction) (filter : EdgeFilter) (length : HopRange) (origin : WalkOrigin)
    (visit : List EdgeId → NodeId → Visit σ) (state : σ) :
    s.enumeratePaths start direction filter length origin (tracedPaths visit) ([], state) =
        s.searchPaths direction filter length origin (tracedPaths visit) start ([], state) ∧
      s.enumeratePaths start direction filter length origin visit state =
        s.searchPaths direction filter length origin visit start state := by
  have same {τ : Type} (visit : List EdgeId → NodeId → Visit τ) (state : τ) :
      s.enumeratePaths start direction filter length origin visit state =
        s.searchPaths direction filter length origin visit start state := by
    rw [enumeratePaths, Trail.search_eq_visitAll_descend, visitAll]
    rcases descended : Trail.descend s direction filter length origin visit
      (.ofStart origin start) state with ⟨state', _ | _ | e⟩ <;>
      exact descended.symm
  exact ⟨same _ _, same _ _⟩

end PropertyGraph
