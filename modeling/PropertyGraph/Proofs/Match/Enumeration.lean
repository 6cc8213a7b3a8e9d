import PropertyGraph.Proofs.Match.Expansion
import PropertyGraph.Proofs.Match.Findings

/-!
The search for paths. The stack holds a tree that is walked depth first: what the search comes
across is what the trails on the stack find, one after the other. A trail finds the paths into which
it grows by admissible steps, each once; from the first node these are the walks that leave no node
twice, and from the last node they are the same walks turned round.
-/

namespace PropertyGraph

inductive Route (leads : NodeId → EdgeId → NodeId → Prop) :
    NodeId → List (EdgeId × NodeId) → NodeId → Prop
  | stay (node : NodeId) : Route leads node [] node
  | step {near far last : NodeId} {id : EdgeId} {more : List (EdgeId × NodeId)} :
      leads near id far → Route leads far more last → Route leads near ((id, far) :: more) last

section Routes

variable {leads backwards : NodeId → EdgeId → NodeId → Prop}

theorem Walk.concat {near far last : NodeId} {id : EdgeId} {ids : List EdgeId}
    {nodes : List NodeId} (walk : Walk leads near ids nodes far) (leads_on : leads far id last) :
    Walk leads near (ids ++ [id]) (nodes ++ [far]) last := by
  induction walk with
  | stay node => exact .step leads_on (.stay last)
  | step first _ ih => exact .step first (ih leads_on)

theorem Route.concat {near far last : NodeId} {id : EdgeId} {more : List (EdgeId × NodeId)}
    (route : Route leads near more far) (leads_on : leads far id last) :
    Route leads near (more ++ [(id, last)]) last := by
  induction route with
  | stay node => exact .step leads_on (.stay last)
  | step first _ ih => exact .step first (ih leads_on)

theorem Route.walk {near last : NodeId} {more : List (EdgeId × NodeId)}
    (route : Route leads near more last) :
    Walk leads near (more.map Prod.fst) (near :: more.map Prod.snd).dropLast last := by
  induction route with
  | stay node => exact .stay node
  | step first _ ih => exact .step first ih

theorem Walk.route {near last : NodeId} {ids : List EdgeId} {nodes : List NodeId}
    (walk : Walk leads near ids nodes last) : ∃ more, more.map Prod.fst = ids ∧
      (near :: more.map Prod.snd).dropLast = nodes ∧ Route leads near more last := by
  induction walk with
  | stay node => exact ⟨[], rfl, rfl, .stay node⟩
  | @step near far last id ids nodes first _ ih =>
      obtain ⟨more, rfl, rfl, route⟩ := ih
      exact ⟨(id, far) :: more, rfl, rfl, .step first route⟩

variable (turned : ∀ near id far, backwards near id far ↔ leads far id near)

include turned

theorem Route.turned_walk {near last : NodeId} {more : List (EdgeId × NodeId)}
    (route : Route backwards near more last) :
    Walk leads last (more.map Prod.fst).reverse (more.map Prod.snd).reverse near := by
  induction route with
  | stay node => exact .stay node
  | step first _ ih =>
      rw [List.map_cons, List.map_cons, List.reverse_cons, List.reverse_cons]
      exact ih.concat ((turned _ _ _).mp first)

theorem Walk.turned_route {near last : NodeId} {ids : List EdgeId} {nodes : List NodeId}
    (walk : Walk leads near ids nodes last) : ∃ more, (more.map Prod.fst).reverse = ids ∧
      (more.map Prod.snd).reverse = nodes ∧ Route backwards last more near := by
  induction walk with
  | stay node => exact ⟨[], rfl, rfl, .stay node⟩
  | @step near far last id ids nodes first _ ih =>
      obtain ⟨more, rfl, rfl, route⟩ := ih
      refine ⟨more ++ [(id, near)], by simp, by simp, ?_⟩
      exact route.concat ((turned _ _ _).mpr first)

end Routes

/-- Of the nodes that steps reach, those that may not have been reached before: seen from the start
of a path, all but the last one. -/
def WalkOrigin.guarded : WalkOrigin → List NodeId → List NodeId
  | .start, nodes => nodes.dropLast
  | .finish, nodes => nodes

theorem WalkOrigin.guarded_cons (origin : WalkOrigin) (node : NodeId) (nodes : List NodeId) :
    origin.guarded (node :: nodes) =
      if origin = .start ∧ nodes = [] then [] else node :: origin.guarded nodes := by
  cases origin with
  | start =>
      cases nodes with
      | nil => rfl
      | cons next nodes => simp [guarded]
  | finish => simp [guarded]

theorem HopRange.pos_of_contains {range : HopRange} {n : Nat} (contains : range.contains n = true) :
    0 < n := by
  have least := of_decide_eq_true (Bool.and_eq_true_iff.mp contains).1
  have one : 1 ≤ range.minHops := Nat.le_max_right _ _
  exact Nat.le_trans one least

theorem HopRange.canExtend_of_contains {range : HopRange} {m n : Nat}
    (contains : range.contains n = true) (less : m < n) : range.canExtend m = true := by
  have bound := (Bool.and_eq_true_iff.mp contains).2
  unfold canExtend
  cases max : range.max with
  | none => rfl
  | some most =>
      rw [max] at bound
      simp only [Option.all_some, decide_eq_true_eq] at bound ⊢
      exact Nat.lt_of_lt_of_le less bound

namespace Trail

def offered (t : Trail) (length : HopRange) : Findings (List EdgeId × NodeId) :=
  if t.edges ≠ [] ∧ length.contains t.edges.length then [.ok (t.edges, t.last)] else []

def finds (s : Store) (direction : Direction) (filter : EdgeFilter) (length : HopRange)
    (origin : WalkOrigin) (t : Trail) : Findings (List EdgeId × NodeId) :=
  t.offered length ++
    if t.closed || !length.canExtend t.edges.length then []
    else
      match _h : s.expand? t.last direction filter with
      | .error e => [.error (.incomparable e)]
      | .ok steps => (t.extensions origin steps).attach.flatMap fun u =>
          finds s direction filter length origin u.1
termination_by t.unused s
decreasing_by
  obtain ⟨step, step_mem, extended⟩ := List.mem_filterMap.mp u.2
  exact unused_lt extended (Store.index_lt_of_mem_expand? _h step_mem)

def extendAll? (t : Trail) (origin : WalkOrigin) : List (EdgeId × NodeId) → Option Trail
  | [] => some t
  | step :: more =>
      if t.closed then none else (t.extend? origin step).bind fun u => u.extendAll? origin more

section Search

variable {s : Store} {direction : Direction} {filter : EdgeFilter} {length : HopRange}
  {origin : WalkOrigin}

theorem finds_of_ended {t : Trail} (ended : (t.closed || !length.canExtend t.edges.length) = true) :
    t.finds s direction filter length origin = t.offered length := by
  rw [finds, if_pos ended, List.append_nil]

theorem finds_of_error {t : Trail}
    (ongoing : ¬(t.closed || !length.canExtend t.edges.length) = true) {e : Incomparable}
    (failed : s.expand? t.last direction filter = .error e) :
    t.finds s direction filter length origin = t.offered length ++ [.error (.incomparable e)] := by
  rw [finds, if_neg ongoing]
  split
  · rename_i e' failed'
    rw [failed] at failed'
    cases failed'
    rfl
  · rename_i steps expanded
    rw [failed] at expanded
    cases expanded

theorem finds_of_ok {t : Trail}
    (ongoing : ¬(t.closed || !length.canExtend t.edges.length) = true)
    {steps : List (EdgeId × NodeId)} (expanded : s.expand? t.last direction filter = .ok steps) :
    t.finds s direction filter length origin = t.offered length ++
      (t.extensions origin steps).flatMap (finds s direction filter length origin) := by
  rw [finds, if_neg ongoing]
  split
  · rename_i e failed
    rw [expanded] at failed
    cases failed
  · rename_i steps' expanded'
    rw [expanded] at expanded'
    cases expanded'
    have plain := List.flatMap_map Subtype.val (finds s direction filter length origin)
      (t.extensions origin steps).attach
    rw [List.attach_map_subtype_val] at plain
    rw [plain]

theorem search_eq_visitEach {σ : Type} (visit : List EdgeId → NodeId → Visit σ) (stack : List Trail)
    (state : σ) : search s direction filter length origin visit stack state =
      visitEach (fun path => visit path.1 path.2)
        (stack.flatMap (finds s direction filter length origin)) state := by
  have offer_eq (t : Trail) (state : σ) : t.offer length visit state =
      visitEach (fun path => visit path.1 path.2) (t.offered length) state := by
    unfold offer offered
    split
    · rw [visitEach_cons_ok]
      rcases visit t.edges t.last state with ⟨state', _ | _ | e⟩ <;> rfl
    · rfl
  induction stack, state using search.induct s direction filter length origin visit with
  | case1 state =>
      rw [search]
      rfl
  | case2 t rest state state' offered ended ih =>
      rw [search, offered, List.flatMap_cons, finds_of_ended ended, visitEach_append, ← offer_eq,
        offered]
      simpa [ended] using ih
  | case3 t rest state state' offered ongoing e failed =>
      rw [search, offered, List.flatMap_cons, finds_of_error ongoing failed, List.append_assoc,
        visitEach_append, ← offer_eq, offered]
      simp only [ongoing, Bool.false_eq_true, ↓reduceIte]
      split
      · rename_i failed'
        rw [failed] at failed'
        cases failed'
        rfl
      · rename_i expanded
        rw [failed] at expanded
        cases expanded
  | case4 t rest state state' offered ongoing steps expanded ih =>
      rw [search, offered, List.flatMap_cons, finds_of_ok ongoing expanded, List.append_assoc,
        visitEach_append, ← offer_eq, offered, ← List.flatMap_append]
      simp only [ongoing, Bool.false_eq_true, ↓reduceIte]
      split
      · rename_i failed
        rw [expanded] at failed
        cases failed
      · rename_i expanded'
        rw [expanded] at expanded'
        cases expanded'
        exact ih
  | case5 t rest state broken_off =>
      have finds_eq : ∃ later, t.finds s direction filter length origin =
          t.offered length ++ later := ⟨_, by rw [finds]⟩
      obtain ⟨later, finds_eq⟩ := finds_eq
      rw [search, List.flatMap_cons, finds_eq, List.append_assoc, visitEach_append, ← offer_eq]
      rcases offered : t.offer length visit state with ⟨state', _ | _ | e⟩
      · exact absurd offered fun eq => broken_off state' eq
      · rfl
      · rfl

theorem enumeratePaths_eq {σ : Type} (visit : List EdgeId → NodeId → Visit σ) (start : NodeId)
    (state : σ) : s.enumeratePaths start direction filter length origin visit state =
      visitEach (fun path => visit path.1 path.2)
        ((ofStart origin start).finds s direction filter length origin) state := by
  rw [Store.enumeratePaths, search_eq_visitEach, List.flatMap_singleton]

end Search

section Growth

variable {origin : WalkOrigin}

theorem extend?_eq_some {t u : Trail} {step : EdgeId × NodeId}
    (h : t.extend? origin step = some u) :
    step.1 ∉ t.edges ∧ u.edges = t.edges ++ [step.1] ∧ u.last = step.2 ∧
      ((step.2 ∈ t.visited ∧ origin = .start ∧ u.closed = true ∧ u.visited = t.visited) ∨
        (step.2 ∉ t.visited ∧ u.closed = false ∧ u.visited = t.visited ++ [step.2])) := by
  unfold extend? at h
  split at h
  · cases h
  · rename_i fresh
    split at h
    · rename_i met
      cases origin with
      | start =>
          cases h
          exact ⟨fresh, rfl, rfl, .inl ⟨met, rfl, rfl, rfl⟩⟩
      | finish => cases h
    · rename_i unmet
      cases h
      exact ⟨fresh, rfl, rfl, .inr ⟨unmet, rfl, rfl⟩⟩

theorem extendAll?_cons {t u : Trail} {step : EdgeId × NodeId} {more : List (EdgeId × NodeId)} :
    t.extendAll? origin (step :: more) = some u ↔
      t.closed = false ∧ ∃ v, t.extend? origin step = some v ∧ v.extendAll? origin more = some u := by
  rw [extendAll?]
  cases t.closed <;> simp [Option.bind_eq_some_iff]

theorem edges_of_extendAll? {t u : Trail} {more : List (EdgeId × NodeId)}
    (h : t.extendAll? origin more = some u) : u.edges = t.edges ++ more.map Prod.fst := by
  induction more generalizing t with
  | nil =>
      cases h
      simp
  | cons step more ih =>
      obtain ⟨-, v, extended, later⟩ := extendAll?_cons.mp h
      obtain ⟨-, edges, -⟩ := extend?_eq_some extended
      rw [ih later, edges, List.append_assoc]
      rfl

theorem last_of_extendAll? {leads : NodeId → EdgeId → NodeId → Prop} {t u : Trail}
    {more : List (EdgeId × NodeId)} {last : NodeId} (h : t.extendAll? origin more = some u)
    (route : Route leads t.last more last) : u.last = last := by
  induction more generalizing t with
  | nil =>
      cases h
      cases route
      rfl
  | cons step more ih =>
      obtain ⟨-, v, extended, later⟩ := extendAll?_cons.mp h
      obtain ⟨-, -, last_v, -⟩ := extend?_eq_some extended
      cases route with
      | step _ route => exact ih later (last_v ▸ route)

structure Allows (t : Trail) (origin : WalkOrigin) (more : List (EdgeId × NodeId)) : Prop where
  ended : t.closed = true → more = []
  unused : ∀ id ∈ more.map Prod.fst, id ∉ t.edges
  edges : (more.map Prod.fst).Nodup
  unmet : ∀ node ∈ origin.guarded (more.map Prod.snd), node ∉ t.visited
  nodes : (origin.guarded (more.map Prod.snd)).Nodup

theorem allows_nil (t : Trail) : t.Allows origin [] where
  ended _ := rfl
  unused := by simp
  edges := .nil
  unmet := by cases origin <;> simp [WalkOrigin.guarded]
  nodes := by cases origin <;> simp [WalkOrigin.guarded]

theorem Allows.of_extend? {t u : Trail} {step : EdgeId × NodeId} {more : List (EdgeId × NodeId)}
    (extended : t.extend? origin step = some u) (ongoing : t.closed = false)
    (later : u.Allows origin more) : t.Allows origin (step :: more) := by
  obtain ⟨fresh, edges, -, visited⟩ := extend?_eq_some extended
  have ended : t.closed = true → step :: more = [] := by simp [ongoing]
  rcases visited with ⟨-, rfl, closed, -⟩ | ⟨unmet, -, visited⟩
  · cases later.ended closed
    exact ⟨ended, by simpa using fresh, by simp, by simp [WalkOrigin.guarded],
      by simp [WalkOrigin.guarded]⟩
  · have fresh_later : ∀ id ∈ more.map Prod.fst, id ∉ t.edges ∧ id ≠ step.1 := by
      simpa [edges] using later.unused
    have unmet_later : ∀ node ∈ origin.guarded (more.map Prod.snd),
        node ∉ t.visited ∧ node ≠ step.2 := by
      simpa [visited] using later.unmet
    refine ⟨ended, ?_, ?_, ?_, ?_⟩
    · exact List.forall_mem_cons.mpr ⟨fresh, fun id mem => (fresh_later id mem).1⟩
    · exact List.nodup_cons.mpr ⟨fun mem => (fresh_later _ mem).2 rfl, later.edges⟩
    · rw [List.map_cons, WalkOrigin.guarded_cons]
      split
      · simp
      · exact List.forall_mem_cons.mpr ⟨unmet, fun node mem => (unmet_later node mem).1⟩
    · rw [List.map_cons, WalkOrigin.guarded_cons]
      split
      · exact .nil
      · exact List.nodup_cons.mpr ⟨fun mem => (unmet_later _ mem).2 rfl, later.nodes⟩

theorem Allows.extend? {t : Trail} {step : EdgeId × NodeId} {more : List (EdgeId × NodeId)}
    (allows : t.Allows origin (step :: more)) :
    t.closed = false ∧ ∃ u, t.extend? origin step = some u ∧ u.Allows origin more := by
  obtain ⟨ended, unused, edges, unmet, nodes⟩ := allows
  have ongoing : t.closed = false :=
    Bool.eq_false_iff.mpr fun closed => List.cons_ne_nil _ _ (ended closed)
  obtain ⟨fresh, unused⟩ := List.forall_mem_cons.mp unused
  obtain ⟨apart, edges⟩ := List.nodup_cons.mp edges
  have unused_later : ∀ id ∈ more.map Prod.fst, id ∉ t.edges ++ [step.1] := by
    intro id mem again
    rcases List.mem_append.mp again with again | again
    · exact unused id mem again
    · exact apart (List.mem_singleton.mp again ▸ mem)
  rw [List.map_cons, WalkOrigin.guarded_cons] at unmet nodes
  refine ⟨ongoing, ?_⟩
  by_cases last : origin = .start ∧ more.map Prod.snd = []
  · -- The last step from the start may reach a node again, and closes the path when it does.
    obtain ⟨rfl, last⟩ := last
    cases List.map_eq_nil_iff.mp last
    by_cases met : step.2 ∈ t.visited
    · exact ⟨_, by rw [Trail.extend?, if_neg fresh, if_pos met], allows_nil _⟩
    · exact ⟨_, by rw [Trail.extend?, if_neg fresh, if_neg met], allows_nil _⟩
  · rw [if_neg last] at unmet nodes
    obtain ⟨first, unmet⟩ := List.forall_mem_cons.mp unmet
    obtain ⟨distinct, nodes⟩ := List.nodup_cons.mp nodes
    refine ⟨⟨t.edges ++ [step.1], t.visited ++ [step.2], step.2, false⟩, ?_, ?_⟩
    · simp [Trail.extend?, fresh, first]
    · refine ⟨by simp, unused_later, edges, ?_, nodes⟩
      intro node mem again
      rcases List.mem_append.mp again with again | again
      · exact unmet node mem again
      · exact distinct (List.mem_singleton.mp again ▸ mem)

theorem exists_extendAll?_iff {t : Trail} {more : List (EdgeId × NodeId)} :
    (∃ u, t.extendAll? origin more = some u) ↔ t.Allows origin more := by
  induction more generalizing t with
  | nil => exact iff_of_true ⟨t, rfl⟩ (allows_nil t)
  | cons step more ih =>
      constructor
      · rintro ⟨u, grown⟩
        obtain ⟨ongoing, v, extended, later⟩ := extendAll?_cons.mp grown
        exact .of_extend? extended ongoing (ih.mp ⟨u, later⟩)
      · intro allows
        obtain ⟨ongoing, v, extended, later⟩ := allows.extend?
        obtain ⟨u, grown⟩ := ih.mpr later
        exact ⟨u, extendAll?_cons.mpr ⟨ongoing, v, extended, grown⟩⟩

end Growth

section Exactness

variable {s : Store} {direction : Direction} {filter : EdgeFilter} {length : HopRange}
  {origin : WalkOrigin}

theorem ok_mem_offered {t : Trail} {path : List EdgeId × NodeId} :
    .ok path ∈ t.offered length ↔
      t.edges ≠ [] ∧ length.contains t.edges.length = true ∧ path = (t.edges, t.last) := by
  unfold offered
  split
  · rename_i fits
    rw [List.mem_singleton, Except.ok.injEq]
    exact ⟨fun eq => ⟨fits.1, fits.2, eq⟩, fun fits => fits.2.2⟩
  · rename_i unfit
    refine iff_of_false List.not_mem_nil fun fits => unfit ⟨fits.1, fits.2.1⟩

theorem mem_extensions {t u : Trail} {steps : List (EdgeId × NodeId)} :
    u ∈ t.extensions origin steps ↔ ∃ step ∈ steps, t.extend? origin step = some u :=
  List.mem_filterMap

/-- A property of a trail that goes over from the trails one step on holds of all trails: with each
step fewer edges are left to use. -/
theorem finds_induction (s : Store) (direction : Direction) (filter : EdgeFilter)
    (length : HopRange) (origin : WalkOrigin) {motive : Trail → Prop}
    (ended : ∀ t, (t.closed || !length.canExtend t.edges.length) = true → motive t)
    (failed : ∀ t e, ¬(t.closed || !length.canExtend t.edges.length) = true →
      s.expand? t.last direction filter = .error e → motive t)
    (grown : ∀ t steps, ¬(t.closed || !length.canExtend t.edges.length) = true →
      s.expand? t.last direction filter = .ok steps →
      (∀ v ∈ t.extensions origin steps, motive v) → motive t) (t : Trail) : motive t := by
  induction unused : t.unused s using Nat.strongRecOn generalizing t with
  | ind n ih =>
      by_cases stopped : (t.closed || !length.canExtend t.edges.length) = true
      · exact ended t stopped
      · cases expanded : s.expand? t.last direction filter with
        | error e => exact failed t e stopped expanded
        | ok steps =>
            refine grown t steps stopped expanded fun v mem => ?_
            obtain ⟨step, listed, extended⟩ := mem_extensions.mp mem
            have less := unused_lt extended (Store.index_lt_of_mem_expand? expanded listed)
            exact ih _ (unused ▸ less) v rfl

theorem nodup_offered (t : Trail) (length : HopRange) : (t.offered length).Nodup := by
  unfold offered
  split
  · exact List.nodup_singleton _
  · exact .nil

theorem not_clean_of_error {t : Trail} {e : Incomparable}
    (ongoing : ¬(t.closed || !length.canExtend t.edges.length) = true)
    (expanded : s.expand? t.last direction filter = .error e) :
    ¬(t.finds s direction filter length origin).Clean := fun clean => by
  rw [finds_of_error ongoing expanded] at clean
  exact clean _ (List.mem_append_right _ (List.mem_singleton_self _))

theorem clean_of_mem_extensions {t v : Trail} {steps : List (EdgeId × NodeId)}
    (ongoing : ¬(t.closed || !length.canExtend t.edges.length) = true)
    (expanded : s.expand? t.last direction filter = .ok steps)
    (clean : (t.finds s direction filter length origin).Clean)
    (mem : v ∈ t.extensions origin steps) : (v.finds s direction filter length origin).Clean := by
  rw [finds_of_ok ongoing expanded] at clean
  exact fun e failed =>
    clean e (List.mem_append_right _ (List.mem_flatMap.mpr ⟨v, mem, failed⟩))

theorem exists_extendAll?_of_mem_finds (h : s.Sound) {t : Trail} {path : List EdgeId × NodeId}
    (mem : .ok path ∈ t.finds s direction filter length origin) :
    ∃ more u, t.extendAll? origin more = some u ∧
      Route (s.Leads direction filter) t.last more u.last ∧ .ok path ∈ u.offered length := by
  induction t using finds_induction s direction filter length origin with
  | ended t stopped =>
      rw [finds_of_ended stopped] at mem
      exact ⟨[], t, rfl, .stay _, mem⟩
  | failed t e stopped expanded =>
      rw [finds_of_error stopped expanded, List.mem_append] at mem
      rcases mem with mem | mem
      · exact ⟨[], t, rfl, .stay _, mem⟩
      · cases List.mem_singleton.mp mem
  | grown t steps stopped expanded ih =>
      rw [finds_of_ok stopped expanded, List.mem_append, List.mem_flatMap] at mem
      rcases mem with here | ⟨v, mem, found⟩
      · exact ⟨[], t, rfl, .stay _, here⟩
      · obtain ⟨step, listed, extended⟩ := mem_extensions.mp mem
        obtain ⟨more, u, grown, route, here⟩ := ih v mem found
        obtain ⟨-, -, last, -⟩ := extend?_eq_some extended
        have ongoing : t.closed = false :=
          Bool.eq_false_iff.mpr fun closed => stopped (by simp [closed])
        refine ⟨step :: more, u, extendAll?_cons.mpr ⟨ongoing, v, extended, grown⟩, ?_, here⟩
        exact .step ((h.mem_expand? expanded).mp listed) (last ▸ route)

theorem mem_finds (h : s.Sound) {t : Trail}
    (clean : (t.finds s direction filter length origin).Clean) {path : List EdgeId × NodeId} :
    .ok path ∈ t.finds s direction filter length origin ↔
      ∃ more u, t.extendAll? origin more = some u ∧
        Route (s.Leads direction filter) t.last more u.last ∧ .ok path ∈ u.offered length := by
  refine ⟨exists_extendAll?_of_mem_finds h, ?_⟩
  induction t using finds_induction s direction filter length origin with
  | ended t stopped =>
      rw [finds_of_ended stopped]
      rintro ⟨more, u, grown, route, here⟩
      cases more with
      | nil =>
          cases grown
          exact here
      | cons step more =>
          obtain ⟨ongoing, -⟩ := extendAll?_cons.mp grown
          have longer : t.edges.length < u.edges.length := by
            simp [edges_of_extendAll? grown]
          obtain ⟨-, fits, -⟩ := ok_mem_offered.mp here
          simp [ongoing, HopRange.canExtend_of_contains fits longer] at stopped
  | failed t e stopped expanded => exact absurd clean (not_clean_of_error stopped expanded)
  | grown t steps stopped expanded ih =>
      have later {v : Trail} (mem : v ∈ t.extensions origin steps) :=
        ih v mem (clean_of_mem_extensions stopped expanded clean mem)
      rw [finds_of_ok stopped expanded, List.mem_append, List.mem_flatMap]
      rintro ⟨more, u, grown, route, here⟩
      cases more with
      | nil =>
          cases grown
          exact .inl here
      | cons step more =>
          obtain ⟨-, v, extended, grown'⟩ := extendAll?_cons.mp grown
          obtain ⟨-, -, last, -⟩ := extend?_eq_some extended
          cases route with
          | step leads route =>
              have listed := (h.mem_expand? expanded).mpr leads
              have mem := mem_extensions.mpr ⟨_, listed, extended⟩
              exact .inr ⟨v, mem, later mem ⟨more, u, grown', last ▸ route, here⟩⟩

theorem prefix_of_mem_finds {t : Trail} {path : List EdgeId × NodeId}
    (mem : .ok path ∈ t.finds s direction filter length origin) : t.edges <+: path.1 := by
  have here {t : Trail} (mem : .ok path ∈ t.offered length) : t.edges <+: path.1 := by
    obtain ⟨-, -, rfl⟩ := ok_mem_offered.mp mem
    exact List.prefix_rfl
  induction t using finds_induction s direction filter length origin with
  | ended t stopped =>
      rw [finds_of_ended stopped] at mem
      exact here mem
  | failed t e stopped expanded =>
      rw [finds_of_error stopped expanded, List.mem_append] at mem
      rcases mem with mem | mem
      · exact here mem
      · cases List.mem_singleton.mp mem
  | grown t steps stopped expanded ih =>
      rw [finds_of_ok stopped expanded, List.mem_append, List.mem_flatMap] at mem
      rcases mem with mem | ⟨v, grown, mem⟩
      · exact here mem
      · obtain ⟨step, -, extended⟩ := mem_extensions.mp grown
        obtain ⟨-, edges, -⟩ := extend?_eq_some extended
        exact (edges ▸ List.prefix_append _ _ : t.edges <+: v.edges).trans (ih v grown mem)

theorem step_eq_of_mem_finds {t v w : Trail} {a b : EdgeId × NodeId}
    (at_a : t.extend? origin a = some v) (at_b : t.extend? origin b = some w)
    {path : List EdgeId × NodeId} (in_v : .ok path ∈ v.finds s direction filter length origin)
    (in_w : .ok path ∈ w.finds s direction filter length origin) : a.1 = b.1 := by
  obtain ⟨-, edges_v, -⟩ := extend?_eq_some at_a
  obtain ⟨-, edges_w, -⟩ := extend?_eq_some at_b
  have as_long : v.edges.length = w.edges.length := by simp [edges_v, edges_w]
  have same := (List.prefix_of_prefix_length_le (prefix_of_mem_finds in_v)
    (prefix_of_mem_finds in_w) (Nat.le_of_eq as_long)).eq_of_length as_long
  rw [edges_v, edges_w] at same
  exact List.singleton_inj.mp (List.append_cancel_left same)

theorem not_mem_offered_of_extend? {t v : Trail} {step : EdgeId × NodeId}
    (extended : t.extend? origin step = some v) {path : List EdgeId × NodeId}
    (later : .ok path ∈ v.finds s direction filter length origin) :
    .ok path ∉ t.offered length := fun here => by
  obtain ⟨-, -, rfl⟩ := ok_mem_offered.mp here
  obtain ⟨-, edges, -⟩ := extend?_eq_some extended
  have longer := (prefix_of_mem_finds later).length_le
  simp only [edges, List.length_append, List.length_singleton] at longer
  omega

theorem nodup_finds (h : s.Sound) {t : Trail}
    (clean : (t.finds s direction filter length origin).Clean) :
    (t.finds s direction filter length origin).Nodup := by
  induction t using finds_induction s direction filter length origin with
  | ended t stopped =>
      rw [finds_of_ended stopped]
      exact nodup_offered t length
  | failed t e stopped expanded => exact absurd clean (not_clean_of_error stopped expanded)
  | grown t steps stopped expanded ih =>
      have clean_later {v : Trail} (mem : v ∈ t.extensions origin steps) :=
        clean_of_mem_extensions stopped expanded clean mem
      rw [finds_of_ok stopped expanded] at clean ⊢
      refine List.nodup_append.mpr ⟨nodup_offered t length, List.nodup_flatMap.mpr ⟨?_, ?_⟩, ?_⟩
      · exact fun v mem => ih v mem (clean_later mem)
      · refine List.pairwise_filterMap.mpr ((List.pairwise_map.mp
          (h.nodup_expand? expanded)).imp_of_mem fun {a b} listed_a _ ne v at_a w at_b => ?_)
        intro item in_v in_w
        cases item with
        | error e => exact clean_later (mem_extensions.mpr ⟨a, listed_a, at_a⟩) e in_v
        | ok path => exact ne (step_eq_of_mem_finds at_a at_b in_v in_w)
      · rintro item here _ there rfl
        obtain ⟨v, mem, later⟩ := List.mem_flatMap.mp there
        obtain ⟨step, -, extended⟩ := mem_extensions.mp mem
        cases item with
        | error e => exact clean e (List.mem_append_right _ there)
        | ok path => exact not_mem_offered_of_extend? extended later here

theorem route_of_mem_finds (h : s.Sound) {t : Trail} {ids : List EdgeId} {last : NodeId}
    (mem : .ok (ids, last) ∈ t.finds s direction filter length origin) :
    ids ≠ [] ∧ length.contains ids.length = true ∧ ∃ more, ids = t.edges ++ more.map Prod.fst ∧
      t.Allows origin more ∧ Route (s.Leads direction filter) t.last more last := by
  obtain ⟨more, u, grown, route, here⟩ := exists_extendAll?_of_mem_finds h mem
  obtain ⟨some_edge, fits, eq⟩ := ok_mem_offered.mp here
  cases eq
  exact ⟨some_edge, fits, more, edges_of_extendAll? grown, exists_extendAll?_iff.mp ⟨u, grown⟩,
    route⟩

theorem mem_finds_iff (h : s.Sound) {t : Trail}
    (clean : (t.finds s direction filter length origin).Clean) {ids : List EdgeId}
    {last : NodeId} :
    .ok (ids, last) ∈ t.finds s direction filter length origin ↔
      ids ≠ [] ∧ length.contains ids.length = true ∧ ∃ more, ids = t.edges ++ more.map Prod.fst ∧
        t.Allows origin more ∧ Route (s.Leads direction filter) t.last more last := by
  refine ⟨route_of_mem_finds h, ?_⟩
  rintro ⟨some_edge, fits, more, edges, allows, route⟩
  obtain ⟨u, grown⟩ := exists_extendAll?_iff.mpr allows
  have edges_u := edges_of_extendAll? grown
  have last_u : u.last = last := last_of_extendAll? grown route
  subst last_u
  refine (mem_finds h clean).mpr ⟨more, u, grown, route, ok_mem_offered.mpr ?_⟩
  rw [edges_u, ← edges]
  exact ⟨some_edge, fits, rfl⟩

theorem nodup_dropLast_cons {start : NodeId} {nodes : List NodeId} :
    (start :: nodes).dropLast.Nodup ↔
      (∀ node ∈ nodes.dropLast, node ∉ [start]) ∧ nodes.dropLast.Nodup := by
  cases nodes with
  | nil => simp
  | cons node nodes =>
      rw [List.dropLast_cons_cons, List.nodup_cons]
      refine and_congr_left fun _ => ?_
      constructor
      · rintro apart other mem again
        exact apart (List.mem_singleton.mp again ▸ mem)
      · exact fun apart mem => apart start mem (List.mem_singleton_self _)

theorem joins_of_mem_finds_ofStart (h : s.Sound) {start last : NodeId} {ids : List EdgeId}
    (mem : .ok (ids, last) ∈ (ofStart .start start).finds s direction filter length .start) :
    s.Joins direction filter length start ids last := by
  obtain ⟨-, fits, more, edges, allows, route⟩ := route_of_mem_finds h mem
  cases edges
  exact ⟨fits, allows.edges, _, nodup_dropLast_cons.mpr ⟨allows.unmet, allows.nodes⟩, route.walk⟩

theorem mem_finds_ofStart (h : s.Sound) {start last : NodeId} {ids : List EdgeId}
    (clean : ((ofStart .start start).finds s direction filter length .start).Clean) :
    .ok (ids, last) ∈ (ofStart .start start).finds s direction filter length .start ↔
      s.Joins direction filter length start ids last := by
  refine ⟨joins_of_mem_finds_ofStart h, ?_⟩
  rintro ⟨fits, edges, nodes, distinct, walk⟩
  obtain ⟨more, rfl, rfl, route⟩ := walk.route
  obtain ⟨unmet, distinct⟩ := nodup_dropLast_cons.mp distinct
  have some_edge := HopRange.pos_of_contains fits
  refine (mem_finds_iff h clean).mpr
    ⟨List.ne_nil_of_length_pos some_edge, fits, more, rfl, ?_, route⟩
  exact ⟨by simp [ofStart], by simp [ofStart], edges, unmet, distinct⟩

theorem joins_of_mem_finds_ofFinish (h : s.Sound) {start last : NodeId} {ids : List EdgeId}
    (mem : .ok (ids, last) ∈ (ofStart .finish start).finds s direction.reversed filter length
      .finish) : s.Joins direction filter length last ids.reverse start := by
  obtain ⟨-, fits, more, edges, allows, route⟩ := route_of_mem_finds h mem
  cases edges
  refine ⟨by rwa [List.length_reverse], List.nodup_reverse.mpr allows.edges, _, ?_,
    route.turned_walk fun _ _ _ => Store.leads_reversed⟩
  exact List.nodup_reverse.mpr allows.nodes

theorem mem_finds_ofFinish (h : s.Sound) {start last : NodeId} {ids : List EdgeId}
    (clean : ((ofStart .finish start).finds s direction.reversed filter length .finish).Clean) :
    .ok (ids, last) ∈ (ofStart .finish start).finds s direction.reversed filter length .finish ↔
      s.Joins direction filter length last ids.reverse start := by
  refine ⟨joins_of_mem_finds_ofFinish h, ?_⟩
  rintro ⟨fits, edges, nodes, distinct, walk⟩
  obtain ⟨more, same, rfl, route⟩ := walk.turned_route fun _ _ _ => Store.leads_reversed
  cases List.reverse_injective same
  rw [List.length_reverse] at fits
  have some_edge := HopRange.pos_of_contains fits
  refine (mem_finds_iff h clean).mpr
    ⟨List.ne_nil_of_length_pos some_edge, fits, more, rfl, ?_, route⟩
  exact ⟨by simp [ofStart], by simp [ofStart], List.nodup_reverse.mp edges, by simp [ofStart],
    List.nodup_reverse.mp distinct⟩

end Exactness

end Trail

end PropertyGraph
