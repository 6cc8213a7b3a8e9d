import PropertyGraph.Proofs.Match.Candidates
import PropertyGraph.Proofs.Match.Clauses
import PropertyGraph.Proofs.Match.Exactness
import PropertyGraph.Proofs.Graph.Reindexing

namespace PropertyGraph

section SameStore

variable {g other : Graph}

theorem Graph.nodePasses_of_store (store : g.store = other.store) : g.NodePasses = other.NodePasses := by
  funext filter id
  simp only [NodePasses, node?, store]

theorem PathPattern.continues_of_store (store : g.store = other.store) (left : NodeId)
    (segments : List Segment) (path : List BoundValue) :
    Continues g left segments path ↔ Continues other left segments path := by
  induction left, segments, path using Continues.induct with
  | case1 left => exact .rfl
  | case2 left segment segments ids right rest ih =>
      simp only [Continues, store, Graph.nodePasses_of_store store, ih]
  | case3 segments path left apart apart' =>
      rw [Continues.eq_3 g _ _ _ apart apart', Continues.eq_3 other _ _ _ apart apart']

theorem PathPattern.matches_of_store (store : g.store = other.store) (p : PathPattern) (scope : Scope)
    (row : Row) : p.Matches g scope row ↔ p.Matches other scope row := by
  have fits : p.Fits g row.path ↔ p.Fits other row.path := by
    cases row.path with
    | nil => exact .rfl
    | cons value rest =>
        cases value with
        | node id => simp only [Fits, Graph.nodePasses_of_store store, continues_of_store store]
        | edges ids => exact .rfl
  exact ⟨fun h => ⟨fits.mp h.fits, h.agrees, h.bindings⟩,
    fun h => ⟨fits.mpr h.fits, h.agrees, h.bindings⟩⟩

theorem Clause.matches_of_store (store : g.store = other.store) (clause : Clause) (symbols : Symbols)
    (tuple : List Row) : clause.Matches g symbols tuple ↔ clause.Matches other symbols tuple :=
  have each := PathPattern.matches_of_store store
  ⟨fun h => ⟨h.each.imp fun part row => (each part _ row).mp, h.agree⟩,
    fun h => ⟨h.each.imp fun part row => (each part _ row).mpr, h.agree⟩⟩

end SameStore

namespace Graph

/-- Every record is there as it was. A lookup that was answered is answered again with the same items,
and a run that finds all its rows finds the same ones, in another order at most. -/
structure Recalls (after g : Graph) : Prop where
  store : after.store = g.store
  buckets : after.buckets = g.buckets
  nodes : ∀ filter selection, g.selectNodes? filter = .ok selection →
    ∃ again, after.selectNodes? filter = .ok again ∧ again.Alike selection
  edges : ∀ filter selection, g.selectEdges? filter = .ok selection →
    ∃ again, after.selectEdges? filter = .ok again ∧ again.Alike selection
  matched : ∀ (σ : Type) (p : PathPattern) (symbols : Symbols) (collector : Collector σ),
    (∀ row s, (collector row s).2 = .next) → ∀ state,
      (p.run g symbols .none collector state).2 = .ok () →
      (p.run after symbols .none collector state).2 = .ok () →
      ∃ rows again : List Row, again.Perm rows ∧
        (p.run g symbols .none collector state).1 =
          rows.foldl (fun s row => (collector row s).1) state ∧
        (p.run after symbols .none collector state).1 =
          again.foldl (fun s row => (collector row s).1) state
  joined : ∀ (σ : Type) (clause : Clause) (symbols : Symbols) (collector : Collector σ),
    (∀ row s, (collector row s).2 = .next) → ∀ state,
      (clause.run g symbols .none collector state).2 = .ok () →
      (clause.run after symbols .none collector state).2 = .ok () →
      ∃ rows again : List Row, again.Perm rows ∧
        (clause.run g symbols .none collector state).1 =
          rows.foldl (fun s row => (collector row s).1) state ∧
        (clause.run after symbols .none collector state).1 =
          again.foldl (fun s row => (collector row s).1) state

structure ReadsAs (after g : Graph) : Prop where
  store : after.store = g.store
  buckets : after.buckets = g.buckets
  nodes : after.selectNodes? = g.selectNodes?
  edges : after.selectEdges? = g.selectEdges?
  nodeEstimates : after.estimateNodes? = g.estimateNodes?
  edgeEstimates : after.estimateEdges? = g.estimateEdges?
  nodeChecks : after.nodeIndexes.check? = g.nodeIndexes.check?
  edgeChecks : after.edgeIndexes.check? = g.edgeIndexes.check?
  matched : ∀ (σ : Type) (p : PathPattern), p.run (σ := σ) after = p.run g
  joined : ∀ (σ : Type) (clause : Clause), clause.run (σ := σ) after = clause.run g

variable {g after : Graph}

theorem Sound.recalls (h : g.Sound) (after_sound : after.Sound) (store : after.store = g.store)
    (buckets : after.buckets = g.buckets) (nodes : after.nodeIndexes.Renews g.nodeIndexes)
    (edges : after.edgeIndexes.Renews g.edgeIndexes) : after.Recalls g where
  store := store
  buckets := buckets
  nodes _ _ := selectNodes?_of_renews store buckets nodes
  edges _ _ := selectEdges?_of_renews store buckets edges
  matched σ p symbols collector goes_on state ok again_ok := by
    obtain ⟨rows, distinct, exact_rows, kept⟩ := PathPattern.run_rows h goes_on ok
    obtain ⟨again, again_distinct, exact_again, again_kept⟩ :=
      PathPattern.run_rows after_sound goes_on again_ok
    refine ⟨rows, again, ?_, kept, again_kept⟩
    refine (List.perm_ext_iff_of_nodup again_distinct distinct).mpr fun row => ?_
    rw [exact_rows, exact_again, PathPattern.matches_of_store store]
  joined σ clause symbols collector goes_on state ok again_ok := by
    obtain ⟨tuples, distinct, exact_tuples, kept⟩ := Clause.run_tuples h goes_on ok
    obtain ⟨again, again_distinct, exact_again, again_kept⟩ :=
      Clause.run_tuples after_sound goes_on again_ok
    refine ⟨tuples.map Row.joined, again.map Row.joined, .map _ ?_, kept, again_kept⟩
    refine (List.perm_ext_iff_of_nodup again_distinct distinct).mpr fun tuple => ?_
    rw [exact_tuples, exact_again, Clause.matches_of_store store]

theorem readsAs_of_indexes (store : after.store = g.store) (buckets : after.buckets = g.buckets)
    (nodes : after.nodeIndexes.ReadsAs g.nodeIndexes)
    (edges : after.edgeIndexes.ReadsAs g.edgeIndexes) : after.ReadsAs g :=
  have same := sameCandidates_of_readsAs store buckets nodes edges
  { store := store
    buckets := buckets
    nodes := same.selectNodes?
    edges := same.selectEdges?
    nodeEstimates := same.estimateNodes?
    edgeEstimates := same.estimateEdges?
    nodeChecks := funext fun key => funext fun value => nodes.check? key value
    edgeChecks := funext fun key => funext fun value => edges.check? key value
    matched := fun _ p => p.run_of_sameCandidates same
    joined := fun _ clause => clause.run_of_sameCandidates same }

structure Traces {α : Type} [Ord α] [Std.TransOrd α] [Std.LawfulEqOrd α] [DecidableEq α]
    (after g : Graph) (returned index : PropertyIndex α) (value : PropertyValue) (a : α) : Prop where
  returns : returned.Returns index value a
  recalls : after.Recalls g
  later : returned.shape = index.shape →
    ∀ changes : List Change, (changes.foldl apply after).Agrees (changes.foldl apply g)
  readsAs : after.ReadsAs g ↔
    returned.shape = index.shape ∧ (index.entries.itemsAt value).getLast? = some a

section Updates

variable {key : String} {value : PropertyValue} {e : GraphError}

theorem Sound.setNodeProperty_of_error (h : g.Sound) {id : NodeId}
    (failed : (g.setNodeProperty id key value).2 = .error e) :
    ((∀ node, g.node? id = some node → node.property? key = none) →
      (g.setNodeProperty id key value).1 = g) ∧
    ∀ node old, g.node? id = some node → node.property? key = some old →
      ∃ index returned, g.nodeIndexes[key]? = some index ∧
        (index.erase old id).insert? old id = .ok returned ∧
        (g.setNodeProperty id key value).1 =
          { g with nodeIndexes := Std.ExtTreeMap.insert g.nodeIndexes key returned } := by
  rw [Graph.setNodeProperty] at failed ⊢
  cases found : g.node? id with
  | none => exact ⟨fun _ => rfl, fun _ _ same => by cases same⟩
  | some node =>
      rw [found] at failed
      cases replaced : g.nodeIndexes.replace key (node.property? key) value id with
      | mk indexes result =>
          cases result with
          | ok =>
              simp only [replaced] at failed
              cases failed
          | error reason =>
              simp only [replaced]
              obtain ⟨bare, valued⟩ := h.nodeIndexes.replace_of_error
                (fun _ old => nodeHolds_old found old) replaced
              refine ⟨fun none => by rw [bare (none node rfl)], fun node' old same has_old => ?_⟩
              cases same
              obtain ⟨index, returned, at_key, back, rfl⟩ := valued old has_old
              exact ⟨index, returned, at_key, back, rfl⟩

theorem Sound.setEdgeProperty_of_error (h : g.Sound) {id : EdgeId}
    (failed : (g.setEdgeProperty id key value).2 = .error e) :
    ((∀ edge, g.edge? id = some edge → edge.property? key = none) →
      (g.setEdgeProperty id key value).1 = g) ∧
    ∀ edge old, g.edge? id = some edge → edge.property? key = some old →
      ∃ index returned, g.edgeIndexes[key]? = some index ∧
        (index.erase old id).insert? old id = .ok returned ∧
        (g.setEdgeProperty id key value).1 =
          { g with edgeIndexes := Std.ExtTreeMap.insert g.edgeIndexes key returned } := by
  rw [Graph.setEdgeProperty] at failed ⊢
  cases found : g.edge? id with
  | none => exact ⟨fun _ => rfl, fun _ _ same => by cases same⟩
  | some edge =>
      rw [found] at failed
      cases replaced : g.edgeIndexes.replace key (edge.property? key) value id with
      | mk indexes result =>
          cases result with
          | ok =>
              simp only [replaced] at failed
              cases failed
          | error reason =>
              simp only [replaced]
              obtain ⟨bare, valued⟩ := h.edgeIndexes.replace_of_error
                (fun _ old => edgeHolds_old found old) replaced
              refine ⟨fun none => by rw [bare (none edge rfl)], fun edge' old same has_old => ?_⟩
              cases same
              obtain ⟨index, returned, at_key, back, rfl⟩ := valued old has_old
              exact ⟨index, returned, at_key, back, rfl⟩

theorem Reachable.traces_nodes (reachable : g.Reachable) {index returned : PropertyIndex NodeId}
    {id : NodeId} (found : g.nodeIndexes[key]? = some index) (held : index.Holds value id)
    (back : (index.erase value id).insert? value id = .ok returned)
    (after_sound : Sound { g with nodeIndexes := Std.ExtTreeMap.insert g.nodeIndexes key returned }) :
    Traces { g with nodeIndexes := Std.ExtTreeMap.insert g.nodeIndexes key returned } g returned index
      value id := by
  have alike := reachable.alike_self
  have settled := alike.nodeIndexes.settled found
  have returns := settled.returns held back
  have returned_settled := ((settled.erase value id).1.insert? back).1
  have accepted := settled.check?_of_holds held
  have at_key : (Std.ExtTreeMap.insert g.nodeIndexes key returned)[key]? = some returned :=
    Std.ExtTreeMap.getElem?_insert_self
  refine ⟨returns, ?_, fun same changes => ?_, fun reads => ⟨?_, ?_⟩, fun exact_return => ?_⟩
  · exact reachable.sound.recalls after_sound rfl rfl
      (IndexCatalog.rel_insert_self (IndexCatalog.Renews.refl _) found returns.renews) (.refl _)
  · have after_alike : Alike
        { g with nodeIndexes := Std.ExtTreeMap.insert g.nodeIndexes key returned } g :=
      ⟨rfl, rfl, IndexCatalog.rel_insert_self alike.nodeIndexes found
        ⟨returned_settled, settled, returns.renews.holds, same⟩, alike.edgeIndexes⟩
    exact (after_alike.foldl changes).agrees
  · exact returns.renews.shape_of_check? found reads.nodeChecks
  · have same := congrFun reads.nodes ⟨[], [(key, value)]⟩
    rw [after_sound.selectNodes?_one at_key (returns.renews.accepts value accepted),
      reachable.sound.selectNodes?_one found accepted] at same
    have items := congrArg Selection.items (Except.ok.inj same)
    exact returns.itemsAt_eq_iff.mp (List.map_injective_iff.mpr (fun _ _ => Except.ok.inj) items)
  · exact readsAs_of_indexes rfl rfl (IndexCatalog.rel_insert_self (IndexCatalog.ReadsAs.refl _) found
      ⟨exact_return.1, returns.itemsAt_eq exact_return.2⟩) (.refl _)

theorem Reachable.traces_edges (reachable : g.Reachable) {index returned : PropertyIndex EdgeId}
    {id : EdgeId} (found : g.edgeIndexes[key]? = some index) (held : index.Holds value id)
    (back : (index.erase value id).insert? value id = .ok returned)
    (after_sound : Sound { g with edgeIndexes := Std.ExtTreeMap.insert g.edgeIndexes key returned }) :
    Traces { g with edgeIndexes := Std.ExtTreeMap.insert g.edgeIndexes key returned } g returned index
      value id := by
  have alike := reachable.alike_self
  have settled := alike.edgeIndexes.settled found
  have returns := settled.returns held back
  have returned_settled := ((settled.erase value id).1.insert? back).1
  have accepted := settled.check?_of_holds held
  have at_key : (Std.ExtTreeMap.insert g.edgeIndexes key returned)[key]? = some returned :=
    Std.ExtTreeMap.getElem?_insert_self
  refine ⟨returns, ?_, fun same changes => ?_, fun reads => ⟨?_, ?_⟩, fun exact_return => ?_⟩
  · exact reachable.sound.recalls after_sound rfl rfl
      (.refl _) (IndexCatalog.rel_insert_self (IndexCatalog.Renews.refl _) found returns.renews)
  · have after_alike : Alike
        { g with edgeIndexes := Std.ExtTreeMap.insert g.edgeIndexes key returned } g :=
      ⟨rfl, rfl, alike.nodeIndexes, IndexCatalog.rel_insert_self alike.edgeIndexes found
        ⟨returned_settled, settled, returns.renews.holds, same⟩⟩
    exact (after_alike.foldl changes).agrees
  · exact returns.renews.shape_of_check? found reads.edgeChecks
  · have same := congrFun reads.edges ⟨[], [(key, value)]⟩
    rw [after_sound.selectEdges?_one at_key (returns.renews.accepts value accepted),
      reachable.sound.selectEdges?_one found accepted] at same
    have items := congrArg Selection.items (Except.ok.inj same)
    exact returns.itemsAt_eq_iff.mp (List.map_injective_iff.mpr (fun _ _ => Except.ok.inj) items)
  · exact readsAs_of_indexes rfl rfl (.refl _) (IndexCatalog.rel_insert_self (IndexCatalog.ReadsAs.refl _)
      found ⟨exact_return.1, returns.itemsAt_eq exact_return.2⟩)

end Updates

theorem traces_of_refused (reachable : g.Reachable) :
    (∀ id key value e, (g.setNodeProperty id key value).2 = .error e →
      ((∀ node, g.node? id = some node → node.property? key = none) →
        (g.setNodeProperty id key value).1 = g) ∧
      ∀ node old, g.node? id = some node → node.property? key = some old →
        ∃ index returned, g.nodeIndexes[key]? = some index ∧
          (g.setNodeProperty id key value).1 =
            { g with nodeIndexes := Std.ExtTreeMap.insert g.nodeIndexes key returned } ∧
          Traces (g.setNodeProperty id key value).1 g returned index old id) ∧
    ∀ id key value e, (g.setEdgeProperty id key value).2 = .error e →
      ((∀ edge, g.edge? id = some edge → edge.property? key = none) →
        (g.setEdgeProperty id key value).1 = g) ∧
      ∀ edge old, g.edge? id = some edge → edge.property? key = some old →
        ∃ index returned, g.edgeIndexes[key]? = some index ∧
          (g.setEdgeProperty id key value).1 =
            { g with edgeIndexes := Std.ExtTreeMap.insert g.edgeIndexes key returned } ∧
          Traces (g.setEdgeProperty id key value).1 g returned index old id := by
  have sound := reachable.sound
  refine ⟨fun id key value e failed => ?_, fun id key value e failed => ?_⟩
  · obtain ⟨bare, valued⟩ := sound.setNodeProperty_of_error failed
    refine ⟨bare, fun node old found has_old => ?_⟩
    obtain ⟨index, returned, at_key, back, left⟩ := valued node old found has_old
    have held := (sound.nodeIndexes key index at_key).mem.mpr (nodeHolds_old found has_old)
    have after_sound := sound.setNodeProperty id key value
    rw [left] at after_sound ⊢
    exact ⟨index, returned, at_key, rfl, reachable.traces_nodes at_key held back after_sound⟩
  · obtain ⟨bare, valued⟩ := sound.setEdgeProperty_of_error failed
    refine ⟨bare, fun edge old found has_old => ?_⟩
    obtain ⟨index, returned, at_key, back, left⟩ := valued edge old found has_old
    have held := (sound.edgeIndexes key index at_key).mem.mpr (edgeHolds_old found has_old)
    have after_sound := sound.setEdgeProperty id key value
    rw [left] at after_sound ⊢
    exact ⟨index, returned, at_key, rfl, reachable.traces_edges at_key held back after_sound⟩

def tied : Graph :=
  [.newNode ∅ (.ofPairs [("k", .integer 1)]), .newNode ∅ (.ofPairs [("k", .integer 1)]),
    .addNodeIndex "k"].foldl apply ∅

theorem reachable_tied : tied.Reachable := Reachable.empty.foldl _

theorem traces_of_refused_tied :
    tied.Reachable ∧
      (tied.setNodeProperty ⟨0⟩ "k" (.string "a")).2 = .error (.incomparable ⟨.string, .integer⟩) ∧
      (tied.setNodeProperty ⟨0⟩ "k" (.string "a")).1.Recalls tied ∧
      (tied.setNodeProperty ⟨1⟩ "k" (.string "a")).2 = .error (.incomparable ⟨.string, .integer⟩) ∧
      (tied.setNodeProperty ⟨1⟩ "k" (.string "a")).1.ReadsAs tied := by
  have at_nodes := (traces_of_refused reachable_tied).1
  obtain ⟨_, _, -, -, first⟩ := (at_nodes ⟨0⟩ "k" (.string "a") _ rfl).2 _ _ rfl rfl
  obtain ⟨index, returned, at_key, -, second⟩ := (at_nodes ⟨1⟩ "k" (.string "a") _ rfl).2 _ _ rfl rfl
  have listed : tied.nodeIndexes["k"]?.map (·.entries.itemsAt (.integer 1)) = some [⟨0⟩, ⟨1⟩] := rfl
  rw [at_key] at listed
  have items : index.entries.itemsAt (.integer 1) = [⟨0⟩, ⟨1⟩] := Option.some.inj listed
  have held : index.Holds (.integer 1) ⟨1⟩ := by simp [PropertyIndex.Holds, items]
  -- The value leaves nothing open about its shape, so the index knows it again.
  have shape := second.returns.renews.complete _ _ _ held rfl rfl
  exact ⟨reachable_tied, rfl, first.recalls, rfl, second.readsAs.mpr ⟨shape, by rw [items]; rfl⟩⟩

/-- A node whose value is the empty list, where the index still knows of a list of integers. -/
def stale : Graph :=
  [.newNode ∅ (.ofPairs [("k", .list [.integer 1])]), .newNode ∅ (.ofPairs [("k", .list [])]),
    .addNodeIndex "k", .removeNode ⟨0⟩].foldl apply ∅

theorem reachable_stale : stale.Reachable := Reachable.empty.foldl _

/-- The first of two holders comes last, and a list of strings is accepted that was refused. -/
theorem not_readsAs_of_refused :
    (tied.Reachable ∧
      (tied.setNodeProperty ⟨0⟩ "k" (.string "a")).2 = .error (.incomparable ⟨.string, .integer⟩) ∧
      tied.selectNodes? ⟨[], [("k", .integer 1)]⟩ = .ok ⟨[.ok ⟨0⟩, .ok ⟨1⟩], some 2⟩ ∧
      (tied.setNodeProperty ⟨0⟩ "k" (.string "a")).1.selectNodes?
        ⟨[], [("k", .integer 1)]⟩ = .ok ⟨[.ok ⟨1⟩, .ok ⟨0⟩], some 2⟩ ∧
      ¬(tied.setNodeProperty ⟨0⟩ "k" (.string "a")).1.ReadsAs tied) ∧
    stale.Reachable ∧
      (stale.setNodeProperty ⟨1⟩ "k" (.list [.integer 1, .string "a"])).2 =
        .error (.incomparable ⟨.string, .integer⟩) ∧
      stale.nodeIndexes.check? "k" (.list [.string "a"]) = .error ⟨.string, .integer⟩ ∧
      (stale.setNodeProperty ⟨1⟩ "k" (.list [.integer 1, .string "a"])).1.nodeIndexes.check? "k"
        (.list [.string "a"]) = .ok () ∧
      ¬(stale.setNodeProperty ⟨1⟩ "k" (.list [.integer 1, .string "a"])).1.ReadsAs stale := by
  have before : tied.selectNodes? ⟨[], [("k", .integer 1)]⟩ =
      .ok ⟨[.ok ⟨0⟩, .ok ⟨1⟩], some 2⟩ := rfl
  have behind : (tied.setNodeProperty ⟨0⟩ "k" (.string "a")).1.selectNodes?
      ⟨[], [("k", .integer 1)]⟩ = .ok ⟨[.ok ⟨1⟩, .ok ⟨0⟩], some 2⟩ := rfl
  have refused : stale.nodeIndexes.check? "k" (.list [.string "a"]) = .error ⟨.string, .integer⟩ := rfl
  have accepted : (stale.setNodeProperty ⟨1⟩ "k"
      (.list [.integer 1, .string "a"])).1.nodeIndexes.check? "k" (.list [.string "a"]) = .ok () := rfl
  refine ⟨⟨reachable_tied, rfl, before, behind, fun reads => ?_⟩, reachable_stale, rfl, refused,
    accepted, fun reads => ?_⟩
  · rw [reads.nodes, before] at behind
    cases behind
  · rw [reads.nodeChecks, refused] at accepted
    cases accepted

end Graph

end PropertyGraph
