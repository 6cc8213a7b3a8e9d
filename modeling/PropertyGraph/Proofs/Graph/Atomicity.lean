import PropertyGraph.Proofs.Graph.Handles
import PropertyGraph.Proofs.Graph.Reindexing

/-!
Changes that are made as a whole or not at all. What creates a record asks every index before it
touches one, and no later index can then refuse; an index that cannot be filled is taken away again;
a change that names a handle without a record fails before it does anything.
-/

namespace PropertyGraph

namespace IndexCatalog

variable {α : Type} [Ord α] [Std.TransOrd α]

def Covers (indexes : IndexCatalog α) (properties : Properties) (a : α) : Prop :=
  ∀ (key : String) (index : PropertyIndex α) (value : PropertyValue),
    indexes[key]? = some index → properties[key]? = some value → index.Holds value a

/-- What the indexes let pass in some order, they take in any order and with one result. -/
def Commits [Std.LawfulEqOrd α] (indexes : IndexCatalog α) : Prop :=
  ∀ (properties : Properties) (asked filed : List (String × PropertyValue)),
    asked.Perm properties.toList → filed.Perm properties.toList →
      indexes.checkEach? asked = .ok () → ∀ a, ∃ after,
        indexes.insertEach a filed = (after, .ok ()) ∧
          indexes.insertAll properties a = (after, .ok ())

variable [Std.LawfulEqOrd α]
variable {indexes : IndexCatalog α} {key : String} {holders : List (PropertyValue × α)}

theorem getElem?_fill_of_ne (indexes : IndexCatalog α) (holders : List (PropertyValue × α))
    {other : String} (ne : other ≠ key) :
    (indexes.fill key holders).1[other]? = indexes[other]? := by
  induction holders generalizing indexes with
  | nil => rfl
  | cons holder rest ih =>
      obtain ⟨value, a⟩ := holder
      rw [fill]
      split
      · rename_i after inserted
        exact (ih after).trans (getElem?_insert?_of_ne inserted ne)
      · rfl

theorem commits (indexes : IndexCatalog α) : indexes.Commits := by
  intro properties asked filed asked_perm filed_perm passed a
  have distinct := distinct_keys properties
  have passes {pairs : List (String × PropertyValue)} (perm : pairs.Perm properties.toList) :
      indexes.checkEach? pairs = .ok () :=
    checkEach?_eq_ok_iff.mpr fun pair mem =>
      checkEach?_eq_ok_iff.mp passed pair (asked_perm.mem_iff.mpr (perm.mem_iff.mp mem))
  have distinct_filed := (filed_perm.map Prod.fst).nodup_iff.mpr distinct
  obtain ⟨after, inserted⟩ := exists_insertEach a distinct_filed (passes filed_perm)
  obtain ⟨final, sorted⟩ := exists_insertEach a distinct (passes (.refl _))
  have same := insertEach_perm filed_perm distinct_filed inserted sorted
  exact ⟨after, inserted, same ▸ sorted⟩

theorem build_eq_of_error {after : IndexCatalog α} {e : Incomparable}
    (failed : indexes.build key holders = (after, .error e)) :
    after = indexes ∧ after.has key = false := by
  rw [build, create] at failed
  by_cases there : indexes.has key
  · rw [if_pos there] at failed
    cases failed
  · rw [if_neg there] at failed
    dsimp only at failed
    split at failed
    · cases failed
    · rename_i filled reason stopped
      cases failed
      have others {other : String} (ne : other ≠ key) : filled[other]? = indexes[other]? := by
        have kept := getElem?_fill_of_ne (Std.ExtTreeMap.insert indexes key ∅) holders ne
        rw [stopped] at kept
        exact kept.trans (by rw [Std.ExtTreeMap.getElem?_insert, if_neg (by simpa using Ne.symm ne)])
      have absent : indexes[key]? = none :=
        Std.ExtTreeMap.getElem?_eq_none_of_contains_eq_false (Bool.eq_false_iff.mpr there)
      refine ⟨Std.ExtTreeMap.ext_getElem? fun other => ?_, by simp [drop, has]⟩
      rw [drop, Std.ExtTreeMap.getElem?_erase]
      by_cases same : other = key
      · simp [same, absent]
      · rw [if_neg (by simpa using Ne.symm same), others same]

end IndexCatalog

namespace Graph

/-- Changes that create a record or an index, and changes told of a handle without a record. -/
inductive Guarded (g : Graph) : Change → Prop
  | newNode (labels : LabelSet) (properties : Properties) : g.Guarded (.newNode labels properties)
  | newEdge (source target : NodeId) (type : EdgeType) (properties : Properties) :
      g.Guarded (.newEdge source target type properties)
  | addNodeIndex (key : String) : g.Guarded (.addNodeIndex key)
  | addEdgeIndex (key : String) : g.Guarded (.addEdgeIndex key)
  | absent {change : Change} {handle : Handle} (names : handle ∈ change.handles)
      (absent : g.store.has handle = false) : g.Guarded change

variable {g : Graph} {e : GraphError}

theorem eq_error_of_map {α β : Type} {result : Except GraphError α} {f : α → β}
    (failed : result.map f = .error e) : result = .error e := by
  cases result with
  | error e =>
      cases failed
      rfl
  | ok a => cases failed

section Creation

theorem newNode_of_error {labels : LabelSet} {properties : Properties}
    (failed : (g.newNode labels properties).2 = .error e) :
    (g.newNode labels properties).1 = g := by
  rw [newNode] at failed ⊢
  cases checked : g.nodeIndexes.checkAll? properties with
  | error e => rfl
  | ok =>
      obtain ⟨after, inserted⟩ :=
        IndexCatalog.exists_insertAll (g.store.addNode labels properties).2 checked
      simp only [checked, inserted] at failed
      cases failed

theorem newEdge_of_error {source target : NodeId} {type : EdgeType} {properties : Properties}
    (failed : (g.newEdge source target type properties).2 = .error e) :
    (g.newEdge source target type properties).1 = g := by
  rw [newEdge] at failed ⊢
  cases checked : g.edgeIndexes.checkAll? properties with
  | error e => rfl
  | ok =>
      cases added : g.store.addEdge source target type properties with
      | error e => rfl
      | ok result =>
          obtain ⟨store, id⟩ := result
          obtain ⟨after, inserted⟩ := IndexCatalog.exists_insertAll id checked
          simp only [checked, added, inserted] at failed
          cases failed

theorem addNodeIndex_of_error {key : String} (failed : (g.addNodeIndex key).2 = .error e) :
    (g.addNodeIndex key).1 = g ∧ g.nodeIndexes.has key = false := by
  rw [addNodeIndex_eq] at failed ⊢
  cases built : g.nodeIndexes.build key (g.nodeHolders key) with
  | mk after result =>
      rw [built] at failed
      cases result with
      | ok => cases failed
      | error e =>
          obtain ⟨rfl, absent⟩ := IndexCatalog.build_eq_of_error built
          exact ⟨rfl, absent⟩

theorem addEdgeIndex_of_error {key : String} (failed : (g.addEdgeIndex key).2 = .error e) :
    (g.addEdgeIndex key).1 = g ∧ g.edgeIndexes.has key = false := by
  rw [addEdgeIndex_eq] at failed ⊢
  cases built : g.edgeIndexes.build key (g.edgeHolders key) with
  | mk after result =>
      rw [built] at failed
      cases result with
      | ok => cases failed
      | error e =>
          obtain ⟨rfl, absent⟩ := IndexCatalog.build_eq_of_error built
          exact ⟨rfl, absent⟩

end Creation

theorem apply_of_absent {change : Change} {handle : Handle} (names : handle ∈ change.handles)
    (absent : g.store.has handle = false) : g.apply change = g := by
  cases change with
  | newNode | addNodeIndex | addEdgeIndex | dropNodeIndex | dropEdgeIndex => cases names
  | newEdge source target type properties =>
      obtain ⟨e, refused⟩ := refused_of_absent absent names
      exact newEdge_of_error (eq_error_of_map refused)
  | setNodeProperty | removeNodeProperty | setNodeLabels | addNodeLabel | removeNodeLabel =>
      cases List.mem_singleton.mp names
      simp only [apply, setNodeProperty, removeNodeProperty, setNodeLabels, addNodeLabel,
        removeNodeLabel, node?, Store.node?_of_absent absent]
  | detachNode id =>
      cases List.mem_singleton.mp names
      simp only [apply, detachNode, Store.detachNode_of_dead absent]
  | removeNode id =>
      cases List.mem_singleton.mp names
      simp only [apply, removeNode, Store.removeNode_of_dead (Store.node?_of_absent absent)]
  | setEdgeProperty | removeEdgeProperty =>
      cases List.mem_singleton.mp names
      simp only [apply, setEdgeProperty, removeEdgeProperty, edge?, Store.edge?_of_absent absent]
  | setEdgeType id type =>
      cases List.mem_singleton.mp names
      simp only [apply, setEdgeType, Store.retypeEdge, Store.edge?_of_absent absent]
  | removeEdge id =>
      cases List.mem_singleton.mp names
      simp only [apply, removeEdge, Store.removeEdge, Store.edge?_of_absent absent]

theorem Guarded.apply_eq {change : Change} (guarded : g.Guarded change)
    (failed : g.outcome change = .error e) : g.apply change = g := by
  cases guarded with
  | newNode labels properties => exact newNode_of_error (eq_error_of_map failed)
  | newEdge source target type properties => exact newEdge_of_error (eq_error_of_map failed)
  | addNodeIndex key => exact (addNodeIndex_of_error failed).1
  | addEdgeIndex key => exact (addEdgeIndex_of_error failed).1
  | absent names absent => exact apply_of_absent names absent

section Filing

theorem Sound.newNode_filed (h : g.Sound) {labels : LabelSet} {properties : Properties} {id : NodeId}
    (made : (g.newNode labels properties).2 = .ok id) :
    (g.newNode labels properties).1.node? id = some ⟨id, labels, properties⟩ ∧
      (g.newNode labels properties).1.nodeIndexes.Covers properties id := by
  have stored : (g.newNode labels properties).1.node? id = some ⟨id, labels, properties⟩ := by
    obtain ⟨store, rfl⟩ := newNode_eq_ok made
    rw [node?, store, Store.node?_addNode, if_pos rfl]
  refine ⟨stored, fun key index value found has_value => ?_⟩
  exact ((h.newNode labels properties).nodeIndexes key index found).mem.mpr ⟨_, stored, has_value⟩

theorem Sound.newEdge_filed (h : g.Sound) {source target : NodeId} {type : EdgeType}
    {properties : Properties} {id : EdgeId}
    (made : (g.newEdge source target type properties).2 = .ok id) :
    (g.newEdge source target type properties).1.edge? id =
        some ⟨id, source, target, type, properties⟩ ∧
      (g.newEdge source target type properties).1.edgeIndexes.Covers properties id := by
  have stored : (g.newEdge source target type properties).1.edge? id =
      some ⟨id, source, target, type, properties⟩ := by
    rw [edge?, Store.edge?_addEdge (newEdge_eq_ok made), if_pos rfl]
  refine ⟨stored, fun key index value found has_value => ?_⟩
  exact ((h.newEdge source target type properties).edgeIndexes key index found).mem.mpr
    ⟨_, stored, has_value⟩

end Filing

theorem unchanged_of_refused (reachable : g.Reachable) :
    (∀ change e, g.Guarded change → g.outcome change = .error e → g.apply change = g) ∧
    g.nodeIndexes.Commits ∧ g.edgeIndexes.Commits ∧
    (∀ labels properties id, (g.newNode labels properties).2 = .ok id →
      (g.newNode labels properties).1.node? id = some ⟨id, labels, properties⟩ ∧
      (g.newNode labels properties).1.nodeIndexes.Covers properties id) ∧
    (∀ source target type properties id, (g.newEdge source target type properties).2 = .ok id →
      (g.newEdge source target type properties).1.edge? id =
          some ⟨id, source, target, type, properties⟩ ∧
      (g.newEdge source target type properties).1.edgeIndexes.Covers properties id) ∧
    (∀ key e, (g.addNodeIndex key).2 = .error e →
      (g.addNodeIndex key).1.nodeIndexes.has key = false) ∧
    ∀ key e, (g.addEdgeIndex key).2 = .error e →
      (g.addEdgeIndex key).1.edgeIndexes.has key = false := by
  refine ⟨fun change e guarded failed => guarded.apply_eq failed,
    g.nodeIndexes.commits, g.edgeIndexes.commits,
    fun labels properties id made => reachable.sound.newNode_filed made,
    fun source target type properties id made => reachable.sound.newEdge_filed made,
    fun key e failed => ?_, fun key e failed => ?_⟩
  · obtain ⟨same, absent⟩ := addNodeIndex_of_error failed
    rw [same, absent]
  · obtain ⟨same, absent⟩ := addEdgeIndex_of_error failed
    rw [same, absent]

def mixed : Graph :=
  [.newNode ∅ (.ofPairs [("j", .string "a"), ("k", .integer 1)]),
    .newNode ∅ (.ofPairs [("j", .integer 1)]), .newEdge ⟨0⟩ ⟨1⟩ ⟨"T"⟩ ∅,
    .addNodeIndex "k"].foldl apply ∅

theorem unchanged_of_refused_mixed :
    mixed.Reachable ∧
      (mixed.outcome (.newNode ∅ (.ofPairs [("i", .integer 1), ("k", .string "1")])) =
          .error (.incomparable ⟨.string, .integer⟩) ∧
        mixed.apply (.newNode ∅ (.ofPairs [("i", .integer 1), ("k", .string "1")])) = mixed) ∧
      (mixed.outcome (.newEdge ⟨0⟩ ⟨2⟩ ⟨"T"⟩ ∅) = .error (.targetMissing ⟨2⟩) ∧
        mixed.apply (.newEdge ⟨0⟩ ⟨2⟩ ⟨"T"⟩ ∅) = mixed) ∧
      (mixed.outcome (.addNodeIndex "j") = .error (.incomparable ⟨.integer, .string⟩) ∧
        mixed.apply (.addNodeIndex "j") = mixed ∧
        (mixed.addNodeIndex "j").1.nodeIndexes.has "j" = false) ∧
      (mixed.outcome (.detachNode ⟨2⟩) = .error (.nodeNotFound ⟨2⟩) ∧
        mixed.apply (.detachNode ⟨2⟩) = mixed) ∧
      (mixed.newNode ∅ (.ofPairs [("k", .integer 1)])).1.nodeIndexes.Covers
        (.ofPairs [("k", .integer 1)]) ⟨2⟩ := by
  have reachable : mixed.Reachable := Reachable.empty.foldl _
  obtain ⟨unchanged, -, -, filed, -, absent, -⟩ := unchanged_of_refused reachable
  exact ⟨reachable, ⟨rfl, unchanged _ _ (.newNode _ _) rfl⟩, ⟨rfl, unchanged _ _ (.newEdge _ _ _ _) rfl⟩,
    ⟨rfl, unchanged _ _ (.addNodeIndex _) rfl, absent _ _ rfl⟩,
    ⟨rfl, unchanged _ _ (.absent (List.mem_singleton_self _) rfl) rfl⟩, (filed _ _ _ rfl).2⟩

end Graph

end PropertyGraph
