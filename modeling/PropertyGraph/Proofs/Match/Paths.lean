import PropertyGraph.Proofs.Graph.Reachable
import PropertyGraph.Proofs.Match.Enumeration
import PropertyGraph.Proofs.Match.Turns
import PropertyGraph.Proofs.Store.Reachable
import Mathlib.Data.List.Perm.Subperm

namespace PropertyGraph

def tracedPaths {σ : Type} (visit : List EdgeId → NodeId → Visit σ) (ids : List EdgeId)
    (last : NodeId) : Visit (List (List EdgeId × NodeId) × σ) := fun (paths, state) =>
  let (state, outcome) := visit ids last state
  ((paths ++ [(ids, last)], state), outcome)

def Store.paths (s : Store) (start : NodeId) (direction : Direction) (filter : EdgeFilter)
    (length : HopRange) (origin : WalkOrigin) : List (List EdgeId × NodeId) :=
  ((Trail.ofStart origin start).finds s direction filter length origin).found

section Tracing

variable {σ : Type} {s : Store} {start : NodeId} {direction : Direction} {filter : EdgeFilter}
  {length : HopRange} {origin : WalkOrigin} {visit : List EdgeId → NodeId → Visit σ} {state : σ}

theorem foldl_tracedPaths (found paths : List (List EdgeId × NodeId)) (state : σ) :
    found.foldl (fun traced path => (tracedPaths visit path.1 path.2 traced).1) (paths, state) =
      (paths ++ found, found.foldl (fun state path => (visit path.1 path.2 state).1) state) := by
  induction found generalizing paths state with
  | nil => rw [List.append_nil, List.foldl_nil, List.foldl_nil]
  | cons path rest ih =>
      rw [List.foldl_cons, List.foldl_cons, tracedPaths, ih, List.append_assoc]
      rfl

theorem Store.clean_of_enumeratePaths (goes_on : ∀ ids last s, (visit ids last s).2 = .next)
    (ok : (s.enumeratePaths start direction filter length origin visit state).2.result = .ok ()) :
    ((Trail.ofStart origin start).finds s direction filter length origin).Clean := by
  rw [Trail.enumeratePaths_eq] at ok
  refine clean_of_visitEach (fun path => goes_on path.1 path.2) (s := state) ?_
  intro e failed
  rw [failed] at ok
  cases ok

theorem Store.enumeratePaths_traced (goes_on : ∀ ids last s, (visit ids last s).2 = .next)
    (clean : ((Trail.ofStart origin start).finds s direction filter length origin).Clean) :
    s.enumeratePaths start direction filter length origin (tracedPaths visit) ([], state) =
      ((s.paths start direction filter length origin,
        (s.enumeratePaths start direction filter length origin visit state).1), .next) := by
  have traced_goes_on : ∀ (path : List EdgeId × NodeId) traced,
      (tracedPaths visit path.1 path.2 traced).2 = .next := by
    intro path traced
    exact goes_on path.1 path.2 traced.2
  rw [Trail.enumeratePaths_eq, Trail.enumeratePaths_eq, visitEach_next traced_goes_on clean,
    visitEach_next (fun path => goes_on path.1 path.2) clean, foldl_tracedPaths]
  rfl

end Tracing

section Paths

variable {s : Store} {start last : NodeId} {direction : Direction} {filter : EdgeFilter}
  {length : HopRange} {ids : List EdgeId}

theorem Store.Sound.nodup_paths (h : s.Sound) {origin : WalkOrigin}
    (clean : ((Trail.ofStart origin start).finds s direction filter length origin).Clean) :
    (s.paths start direction filter length origin).Nodup :=
  Findings.nodup_found (Trail.nodup_finds h clean)

theorem Store.Sound.mem_paths_ofStart (h : s.Sound)
    (clean : ((Trail.ofStart .start start).finds s direction filter length .start).Clean) :
    (ids, last) ∈ s.paths start direction filter length .start ↔
      s.Joins direction filter length start ids last := by
  rw [Store.paths, Findings.mem_found]
  exact Trail.mem_finds_ofStart h clean

theorem Store.Sound.mem_paths_ofFinish (h : s.Sound)
    (clean : ((Trail.ofStart .finish start).finds s direction.reversed filter length
      .finish).Clean) :
    (ids, last) ∈ s.paths start direction.reversed filter length .finish ↔
      s.Joins direction filter length last ids.reverse start := by
  rw [Store.paths, Findings.mem_found]
  exact Trail.mem_finds_ofFinish h clean

end Paths

section Walks

variable {s : Store} {direction : Direction} {filter : EdgeFilter} {length : HopRange}

theorem Walk.length_eq {leads : NodeId → EdgeId → NodeId → Prop} {near last : NodeId}
    {ids : List EdgeId} {nodes : List NodeId} (walk : Walk leads near ids nodes last) :
    ids.length = nodes.length := by
  induction walk with
  | stay node => rfl
  | step _ _ ih => rw [List.length_cons, List.length_cons, ih]

theorem Store.Sound.hasNode_of_walk (h : s.Sound) {near last : NodeId} {ids : List EdgeId}
    {nodes : List NodeId} (walk : Walk (s.Leads direction filter) near ids nodes last) :
    ∀ node ∈ nodes, s.hasNode node = true := by
  induction walk with
  | stay node => simp
  | step leads _ ih => exact List.forall_mem_cons.mpr ⟨h.hasNode_of_leads leads, ih⟩

theorem Store.Sound.length_walk_le (h : s.Sound) {near last : NodeId} {ids : List EdgeId}
    {nodes : List NodeId} (walk : Walk (s.Leads direction filter) near ids nodes last)
    (distinct : nodes.Nodup) : ids.length ≤ s.liveNodes.length := by
  have live : nodes ⊆ s.nodeIds := by
    intro node mem
    exact h.mem_nodeIds.mpr (Option.isSome_iff_exists.mp (h.hasNode_of_walk walk node mem))
  calc ids.length = nodes.length := walk.length_eq
    _ ≤ s.nodeIds.length := (List.Nodup.subperm distinct live).length_le
    _ = s.liveNodes.length := by rw [nodeIds, List.length_map]

end Walks

def countPath (_ : List EdgeId) (_ : NodeId) : Visit Nat := fun n => (n + 1, .next)

def Graph.cycle : Graph :=
  [.newNode ∅ ∅, .newNode ∅ ∅, .newEdge ⟨0⟩ ⟨1⟩ ⟨"T"⟩ ∅, .newEdge ⟨1⟩ ⟨0⟩ ⟨"T"⟩ ∅,
    .newEdge ⟨0⟩ ⟨0⟩ ⟨"T"⟩ ∅].foldl apply ∅

theorem Graph.reachable_cycle : cycle.Reachable := Reachable.empty.foldl _

namespace Store

theorem enumeratePaths_visits_walks {σ : Type} {g : Graph} (reachable : g.Reachable)
    (start : NodeId) (direction : Direction) (filter : EdgeFilter) (length : HopRange)
    (visit : List EdgeId → NodeId → Visit σ) (state : σ) :
    (∀ origin, Trail.turns g.store direction filter length origin visit
        (g.store.turnBound direction filter) [.ofStart origin start] state =
      some (g.store.enumeratePaths start direction filter length origin visit state)) ∧
    ((∀ ids last s, (visit ids last s).2 = .next) →
      (g.store.enumeratePaths start direction filter length .start visit state).2.result = .ok () →
      ∃ visited : List (List EdgeId × NodeId),
        g.store.enumeratePaths start direction filter length .start (tracedPaths visit) ([], state) =
          ((visited,
            (g.store.enumeratePaths start direction filter length .start visit state).1), .next) ∧
        visited.Nodup ∧
        (∀ ids last, (ids, last) ∈ visited ↔
          1 ≤ ids.length ∧ length.contains ids.length = true ∧ ids.Nodup ∧
            ∃ nodes, nodes.Nodup ∧ Walk (g.store.Leads direction filter) start ids nodes last) ∧
        ∀ ids last, (ids, last) ∈ visited → ids.length ≤ g.store.liveNodes.length) := by
  have sound := reachable.sound.store
  constructor
  · intro origin
    exact turns_eq_enumeratePaths g.store start direction filter length origin visit state
  · intro goes_on ok
    have clean := clean_of_enumeratePaths goes_on ok
    refine ⟨g.store.paths start direction filter length .start, enumeratePaths_traced goes_on clean,
      sound.nodup_paths clean, ?_, ?_⟩
    · intro ids last
      rw [sound.mem_paths_ofStart clean]
      constructor
      · rintro ⟨fits, walks⟩
        exact ⟨HopRange.pos_of_contains fits, fits, walks⟩
      · rintro ⟨-, fits, walks⟩
        exact ⟨fits, walks⟩
    · intro ids last mem
      obtain ⟨-, -, nodes, distinct, walk⟩ := (sound.mem_paths_ofStart clean).mp mem
      exact sound.length_walk_le walk distinct

theorem enumeratePaths_visits_walks_cycle :
    Graph.cycle.Reachable ∧ (∀ ids last n, (countPath ids last n).2 = .next) ∧
      (Graph.cycle.store.enumeratePaths ⟨0⟩ .both ⟨[], []⟩ ⟨none, none⟩ .start countPath
        0).2.result = .ok () ∧
      ∃ visited : List (List EdgeId × NodeId),
        Graph.cycle.store.enumeratePaths ⟨0⟩ .both ⟨[], []⟩ ⟨none, none⟩ .start
            (tracedPaths countPath) ([], 0) = ((visited, 5), .next) ∧
        visited.Nodup ∧
        (∀ ids last, (ids, last) ∈ visited ↔
          1 ≤ ids.length ∧ (⟨none, none⟩ : HopRange).contains ids.length = true ∧ ids.Nodup ∧
            ∃ nodes, nodes.Nodup ∧
              Walk (Graph.cycle.store.Leads .both ⟨[], []⟩) ⟨0⟩ ids nodes last) ∧
        ∀ ids last, (ids, last) ∈ visited → ids.length ≤ 2 := by
  have five : Graph.cycle.store.enumeratePaths ⟨0⟩ .both ⟨[], []⟩ ⟨none, none⟩ .start countPath 0 =
      (5, .next) := enumeratePaths_of_turns (by decide +kernel)
  have exact_walks := (enumeratePaths_visits_walks Graph.reachable_cycle ⟨0⟩ .both ⟨[], []⟩
    ⟨none, none⟩ countPath 0).2
  rw [five] at exact_walks ⊢
  exact ⟨Graph.reachable_cycle, fun _ _ _ => rfl, rfl, exact_walks (fun _ _ _ => rfl) rfl⟩

theorem enumeratePaths_visits_mirrored {σ τ : Type} {g : Graph} (reachable : g.Reachable)
    (start finish : NodeId) (direction : Direction) (filter : EdgeFilter) (length : HopRange)
    (visit : List EdgeId → NodeId → Visit σ) (other : List EdgeId → NodeId → Visit τ)
    (goes_on : ∀ ids last s, (visit ids last s).2 = .next)
    (other_goes_on : ∀ ids last s, (other ids last s).2 = .next) (state : σ) (other_state : τ)
    (ok : (g.store.enumeratePaths start direction filter length .start visit state).2.result = .ok ())
    (other_ok : (g.store.enumeratePaths finish direction.reversed filter length .finish other
      other_state).2.result = .ok ()) :
    let forth := (g.store.enumeratePaths start direction filter length .start (tracedPaths visit)
      ([], state)).1.1
    let back := (g.store.enumeratePaths finish direction.reversed filter length .finish
      (tracedPaths other) ([], other_state)).1.1
    ∀ ids, forth.count (ids, finish) = back.count (ids.reverse, start) ∧
      forth.count (ids, finish) ≤ 1 := by
  have sound := reachable.sound.store
  have clean := clean_of_enumeratePaths goes_on ok
  have other_clean := clean_of_enumeratePaths other_goes_on other_ok
  intro forth back ids
  have forth_paths : forth = g.store.paths start direction filter length .start :=
    congrArg (·.1.1) (enumeratePaths_traced goes_on clean)
  have back_paths : back = g.store.paths finish direction.reversed filter length .finish :=
    congrArg (·.1.1) (enumeratePaths_traced other_goes_on other_clean)
  have alike : (ids, finish) ∈ forth ↔ (ids.reverse, start) ∈ back := by
    rw [forth_paths, back_paths, sound.mem_paths_ofStart clean,
      sound.mem_paths_ofFinish other_clean, List.reverse_reverse]
  have once : forth.Nodup := forth_paths ▸ sound.nodup_paths clean
  have other_once : back.Nodup := back_paths ▸ sound.nodup_paths other_clean
  rw [count_eq_ite once alike, count_eq_ite other_once Iff.rfl]
  refine ⟨rfl, ?_⟩
  split <;> omega

theorem enumeratePaths_visits_mirrored_cycle :
    Graph.cycle.Reachable ∧ (∀ ids last n, (countPath ids last n).2 = .next) ∧
      (Graph.cycle.store.enumeratePaths ⟨0⟩ .outgoing ⟨[], []⟩ ⟨none, none⟩ .start countPath
        0).2.result = .ok () ∧
      (Graph.cycle.store.enumeratePaths ⟨0⟩ .incoming ⟨[], []⟩ ⟨none, none⟩ .finish countPath
        0).2.result = .ok () ∧
      (Graph.cycle.store.enumeratePaths ⟨0⟩ .incoming ⟨[], []⟩ ⟨none, none⟩ .finish
        (tracedPaths countPath) ([], 0)).1.1.count ([⟨1⟩, ⟨0⟩], ⟨0⟩) = 1 := by
  have forth : Graph.cycle.store.enumeratePaths ⟨0⟩ .outgoing ⟨[], []⟩ ⟨none, none⟩ .start countPath
      0 = (3, .next) := enumeratePaths_of_turns (by decide +kernel)
  have back : Graph.cycle.store.enumeratePaths ⟨0⟩ .incoming ⟨[], []⟩ ⟨none, none⟩ .finish countPath
      0 = (4, .next) := enumeratePaths_of_turns (by decide +kernel)
  have traced : Graph.cycle.store.enumeratePaths ⟨0⟩ .outgoing ⟨[], []⟩ ⟨none, none⟩ .start
      (tracedPaths countPath) ([], 0) =
        (([([⟨0⟩], ⟨1⟩), ([⟨0⟩, ⟨1⟩], ⟨0⟩), ([⟨2⟩], ⟨0⟩)], 3), .next) :=
    enumeratePaths_of_turns (by decide +kernel)
  have alike := (enumeratePaths_visits_mirrored Graph.reachable_cycle ⟨0⟩ ⟨0⟩ .outgoing ⟨[], []⟩
    ⟨none, none⟩ countPath countPath (fun _ _ _ => rfl) (fun _ _ _ => rfl) 0 0 (by rw [forth]; rfl)
    (by rw [Direction.reversed, back]; rfl) [⟨0⟩, ⟨1⟩]).1
  refine ⟨Graph.reachable_cycle, fun _ _ _ => rfl, by rw [forth]; rfl, by rw [back]; rfl, ?_⟩
  rw [traced] at alike
  exact alike.symm

end Store

end PropertyGraph
