import PropertyGraph.Graph.Selection
import PropertyGraph.Match.Outcome

/-!
Walking the edges of a graph: the steps out of a node, and the paths from a node by depth-first
search with a stack of trails. A path uses no edge twice. Read from its first node it may reach a
node twice only with its last step, which closes it; walked from its last node, that node may come
back once and no other node may.
-/

namespace PropertyGraph

def sumOver {α : Type} (f : α → Nat) : List α → Nat
  | [] => 0
  | a :: rest => f a + sumOver f rest

theorem sumOver_append {α : Type} (f : α → Nat) (as bs : List α) :
    sumOver f (as ++ bs) = sumOver f as + sumOver f bs := by
  induction as with
  | nil => simp [sumOver]
  | cons a rest ih => rw [List.cons_append, sumOver, sumOver, ih, Nat.add_assoc]

theorem le_sumOver_of_mem {α : Type} (f : α → Nat) {l : List α} {a : α} (h : a ∈ l) :
    f a ≤ sumOver f l := by
  induction l with
  | nil => cases h
  | cons b rest ih =>
      rw [sumOver]
      rcases List.mem_cons.mp h with rfl | h
      · exact Nat.le_add_right _ _
      · exact Nat.le_trans (ih h) (Nat.le_add_left _ _)

inductive WalkOrigin where
  | start
  | finish
  deriving DecidableEq, Repr

namespace Store

/-- The given edges that are there and pass the filter, each with the node that `far?` says it leads
to; edges that lead nowhere are left out before the filter sees them. -/
def steps? (s : Store) (filter : EdgeFilter) (far? : Edge → Option NodeId) :
    List EdgeId → Except Incomparable (List (EdgeId × NodeId))
  | [] => .ok []
  | id :: rest =>
      match (s.edge? id).bind fun edge => (far? edge).map fun far => (edge, far) with
      | none => s.steps? filter far? rest
      | some (edge, far) =>
          match filter.accepts? edge with
          | .error e => .error e
          | .ok true => (s.steps? filter far? rest).map ((id, far) :: ·)
          | .ok false => s.steps? filter far? rest

def leaving (s : Store) (node : NodeId) (filter : EdgeFilter) : List EdgeId :=
  if filter.types.isEmpty then s.outgoing node
  else filter.types.eraseDups.flatMap (s.outgoingOf node)

def arriving (s : Store) (node : NodeId) (filter : EdgeFilter) : List EdgeId :=
  if filter.types.isEmpty then s.incoming node
  else filter.types.eraseDups.flatMap (s.incomingOf node)

def stepsOut? (s : Store) (node : NodeId) (filter : EdgeFilter) :
    Except Incomparable (List (EdgeId × NodeId)) :=
  s.steps? filter (fun edge => some edge.target) (s.leaving node filter)

/-- The steps against edges that arrive; loops are left out when they were taken forwards. -/
def stepsBack? (s : Store) (node : NodeId) (loops : Bool) (filter : EdgeFilter) :
    Except Incomparable (List (EdgeId × NodeId)) :=
  s.steps? filter (fun edge => if edge.isSelfLoop && !loops then none else some edge.source)
    (s.arriving node filter)

/-- The edges to follow out of a node, each with the node that it leads to: forwards first, then
backwards. In both directions a loop is followed once. -/
def expand? (s : Store) (node : NodeId) (direction : Direction) (filter : EdgeFilter) :
    Except Incomparable (List (EdgeId × NodeId)) :=
  match direction with
  | .outgoing => s.stepsOut? node filter
  | .incoming => s.stepsBack? node true filter
  | .both =>
      match s.stepsOut? node filter with
      | .error e => .error e
      | .ok forwards => (s.stepsBack? node false filter).map (forwards ++ ·)

end Store

/-- A path under way: its edges in walking order, the nodes that it may not reach again, the node
where it stands, and whether that node closed it. -/
structure Trail where
  edges : List EdgeId
  visited : List NodeId
  last : NodeId
  closed : Bool
  deriving DecidableEq, Repr

namespace Trail

def ofStart (origin : WalkOrigin) (start : NodeId) : Trail where
  edges := []
  visited := match origin with
    | .start => [start]
    | .finish => []
  last := start
  closed := false

def extend? (t : Trail) (origin : WalkOrigin) (step : EdgeId × NodeId) : Option Trail :=
  if step.1 ∈ t.edges then none
  else if step.2 ∈ t.visited then
    match origin with
    | .start => some ⟨t.edges ++ [step.1], t.visited, step.2, true⟩
    | .finish => none
  else some ⟨t.edges ++ [step.1], t.visited ++ [step.2], step.2, false⟩

def offer {σ : Type} (t : Trail) (length : HopRange) (visit : List EdgeId → NodeId → Visit σ) :
    Visit σ := fun state =>
  if t.edges ≠ [] ∧ length.contains t.edges.length then visit t.edges t.last state
  else (state, .next)

def unused (t : Trail) (s : Store) : Nat :=
  ((List.range s.edges.size).filter fun i => EdgeId.mk i ∉ t.edges).length

end Trail

namespace Store

theorem index_lt_of_mem_steps? {s : Store} {filter : EdgeFilter} {far? : Edge → Option NodeId}
    {ids : List EdgeId} {steps : List (EdgeId × NodeId)} (h : s.steps? filter far? ids = .ok steps)
    {step : EdgeId × NodeId} (mem : step ∈ steps) : step.1.index < s.edges.size := by
  induction ids generalizing steps with
  | nil =>
      cases h
      cases mem
  | cons id rest ih =>
      rw [steps?] at h
      split at h
      · exact ih h mem
      · rename_i edge far found
        obtain ⟨edge', found', -⟩ := Option.bind_eq_some_iff.mp found
        split at h
        · cases h
        · cases hr : s.steps? filter far? rest with
          | error e => rw [hr] at h; cases h
          | ok tail =>
              rw [hr] at h
              cases h
              rcases List.mem_cons.mp mem with rfl | mem
              · exact index_lt_of_edge? found'
              · exact ih hr mem
        · exact ih h mem

theorem index_lt_of_mem_expand? {s : Store} {node : NodeId} {direction : Direction}
    {filter : EdgeFilter} {steps : List (EdgeId × NodeId)}
    (h : s.expand? node direction filter = .ok steps) {step : EdgeId × NodeId}
    (mem : step ∈ steps) : step.1.index < s.edges.size := by
  cases direction with
  | outgoing => exact index_lt_of_mem_steps? h mem
  | incoming => exact index_lt_of_mem_steps? h mem
  | both =>
      simp only [expand?] at h
      split at h
      · cases h
      · rename_i forwards hf
        cases hb : s.stepsBack? node false filter with
        | error e => rw [hb] at h; cases h
        | ok backwards =>
            rw [hb] at h
            cases h
            rcases List.mem_append.mp mem with mem | mem
            · exact index_lt_of_mem_steps? hf mem
            · exact index_lt_of_mem_steps? hb mem

def degree (s : Store) (direction : Direction) (filter : EdgeFilter) (node : NodeId) : Nat :=
  match s.expand? node direction filter with
  | .ok steps => steps.length
  | .error _ => 0

def totalDegree (s : Store) (direction : Direction) (filter : EdgeFilter) : Nat :=
  sumOver (fun i => s.degree direction filter ⟨i⟩) (List.range s.nodes.size)

theorem leaving_eq_nil {s : Store} {node : NodeId} (h : s.nodes.size ≤ node.index)
    (filter : EdgeFilter) : s.leaving node filter = [] := by
  have groups : s.outgoingGroups node = ∅ := by simp [outgoingGroups, h]
  unfold leaving
  split
  · rw [outgoing, groups]
    rfl
  · simp only [outgoingOf, groups, List.flatMap_eq_nil_iff]
    exact fun _ _ => rfl

theorem arriving_eq_nil {s : Store} {node : NodeId} (h : s.nodes.size ≤ node.index)
    (filter : EdgeFilter) : s.arriving node filter = [] := by
  have groups : s.incomingGroups node = ∅ := by simp [incomingGroups, h]
  unfold arriving
  split
  · rw [incoming, groups]
    rfl
  · simp only [incomingOf, groups, List.flatMap_eq_nil_iff]
    exact fun _ _ => rfl

theorem degree_eq_zero {s : Store} {node : NodeId} (h : s.nodes.size ≤ node.index)
    (direction : Direction) (filter : EdgeFilter) : s.degree direction filter node = 0 := by
  cases direction <;>
    simp [degree, expand?, stepsOut?, stepsBack?, leaving_eq_nil h, arriving_eq_nil h, steps?,
      Except.map]

theorem degree_le_totalDegree (s : Store) (direction : Direction) (filter : EdgeFilter)
    (node : NodeId) : s.degree direction filter node ≤ s.totalDegree direction filter := by
  by_cases h : node.index < s.nodes.size
  · exact le_sumOver_of_mem (fun i => s.degree direction filter ⟨i⟩) (List.mem_range.mpr h)
  · rw [degree_eq_zero (Nat.le_of_not_lt h)]
    exact Nat.zero_le _

end Store

namespace Trail

def extensions (t : Trail) (origin : WalkOrigin) (steps : List (EdgeId × NodeId)) : List Trail :=
  steps.filterMap (t.extend? origin)

theorem edges_of_extend? {t u : Trail} {origin : WalkOrigin} {step : EdgeId × NodeId}
    (h : t.extend? origin step = some u) : step.1 ∉ t.edges ∧ u.edges = t.edges ++ [step.1] := by
  unfold extend? at h
  split at h
  · cases h
  · rename_i fresh
    split at h
    · split at h
      · cases h
        exact ⟨fresh, rfl⟩
      · cases h
    · cases h
      exact ⟨fresh, rfl⟩

theorem unused_lt {s : Store} {t u : Trail} {origin : WalkOrigin} {step : EdgeId × NodeId}
    (h : t.extend? origin step = some u) (bound : step.1.index < s.edges.size) :
    u.unused s < t.unused s := by
  obtain ⟨fresh, edges_eq⟩ := edges_of_extend? h
  have split_filter : (List.range s.edges.size).filter (fun i => EdgeId.mk i ∉ u.edges) =
      ((List.range s.edges.size).filter fun i => EdgeId.mk i ∉ t.edges).filter
        (fun i => EdgeId.mk i ≠ step.1) := by
    simp only [edges_eq, List.filter_filter, List.mem_append, List.mem_singleton, not_or,
      Bool.decide_and, ne_eq, Bool.and_comm]
  unfold unused
  rw [split_filter, List.length_filter_lt_length_iff_exists]
  exact ⟨step.1.index, by simpa [fresh] using bound, by simp⟩

/-- An upper bound on the number of trails that a trail grows into. -/
def weight (t : Trail) (s : Store) (degree : Nat) : Nat := Nat.pow (degree + 1) (t.unused s)

def totalWeight (s : Store) (degree : Nat) (stack : List Trail) : Nat :=
  sumOver (fun t => t.weight s degree) stack

theorem weight_pos (t : Trail) (s : Store) (degree : Nat) : 0 < t.weight s degree :=
  Nat.pow_pos (Nat.succ_pos degree)

theorem totalWeight_extensions_le {s : Store} (t : Trail) (origin : WalkOrigin) (degree : Nat)
    {steps : List (EdgeId × NodeId)} (bound : ∀ step ∈ steps, step.1.index < s.edges.size) :
    totalWeight s degree (t.extensions origin steps) * (degree + 1) ≤
      steps.length * t.weight s degree := by
  induction steps with
  | nil => simp [extensions, totalWeight, sumOver]
  | cons step rest ih =>
      have tail := ih fun step mem => bound step (List.mem_cons_of_mem _ mem)
      rw [List.length_cons, Nat.succ_mul]
      cases h : t.extend? origin step with
      | none =>
          rw [extensions, List.filterMap_cons_none h]
          exact Nat.le_trans tail (Nat.le_add_right _ _)
      | some u =>
          rw [extensions, List.filterMap_cons_some h, totalWeight, sumOver, Nat.add_mul, Nat.add_comm]
          refine Nat.add_le_add tail ?_
          rw [weight, weight, Nat.pow_eq, Nat.pow_eq, ← Nat.pow_succ]
          exact Nat.pow_le_pow_right (Nat.succ_pos degree)
            (unused_lt h (bound step List.mem_cons_self))

theorem totalWeight_extensions_lt {s : Store} {t : Trail} (origin : WalkOrigin)
    {direction : Direction} {filter : EdgeFilter} {steps : List (EdgeId × NodeId)}
    (h : s.expand? t.last direction filter = .ok steps) :
    totalWeight s (s.totalDegree direction filter) (t.extensions origin steps) <
      t.weight s (s.totalDegree direction filter) := by
  have few : steps.length ≤ s.totalDegree direction filter := by
    simpa [Store.degree, h] using s.degree_le_totalDegree direction filter t.last
  have bound := totalWeight_extensions_le t origin (s.totalDegree direction filter)
    fun step mem => Store.index_lt_of_mem_expand? h mem
  have pos := t.weight_pos s (s.totalDegree direction filter)
  refine Nat.lt_of_mul_lt_mul_right (a := s.totalDegree direction filter + 1)
    (Nat.lt_of_le_of_lt bound ?_)
  rw [Nat.mul_comm]
  exact Nat.mul_lt_mul_of_pos_left (Nat.lt_succ_of_le few) pos

/-- Takes the trail on top, offers it, and puts the trails one step on in its place, until the stack
is empty. A closed trail and one that is as long as may be are not taken further. -/
def search {σ : Type} (s : Store) (direction : Direction) (filter : EdgeFilter) (length : HopRange)
    (origin : WalkOrigin) (visit : List EdgeId → NodeId → Visit σ) : List Trail → Visit σ
  | [], state => (state, .next)
  | t :: rest, state =>
      match t.offer length visit state with
      | (state, .next) =>
          if t.closed || !length.canExtend t.edges.length then
            search s direction filter length origin visit rest state
          else
            match _h : s.expand? t.last direction filter with
            | .error e => (state, .failed (.incomparable e))
            | .ok steps =>
                search s direction filter length origin visit
                  (t.extensions origin steps ++ rest) state
      | ended => ended
termination_by stack => totalWeight s (s.totalDegree direction filter) stack
decreasing_by
  · simp only [totalWeight, sumOver]
    have := t.weight_pos s (s.totalDegree direction filter)
    omega
  · have := totalWeight_extensions_lt origin _h
    simp only [totalWeight, sumOver_append, sumOver] at this ⊢
    omega

end Trail

/-- Visits every path from a node whose number of edges is in the range, depth first in the order
of the edges at each node, with its edges in walking order and its end. -/
def Store.enumeratePaths {σ : Type} (s : Store) (start : NodeId) (direction : Direction)
    (filter : EdgeFilter) (length : HopRange) (origin : WalkOrigin)
    (visit : List EdgeId → NodeId → Visit σ) : Visit σ :=
  Trail.search s direction filter length origin visit [.ofStart origin start]

end PropertyGraph
