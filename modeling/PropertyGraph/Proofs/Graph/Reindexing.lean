import PropertyGraph.Proofs.Graph.Likeness

/-!
An index against one that is built anew: dropped and added again, or filled with what the old one
holds. The new one accepts whatever the old one does. It accepts more only where the old one has lost
the list that told it what the items of lists are; where both accept the same, nothing that is done
later can tell them apart.
-/

namespace PropertyGraph

namespace IndexCatalog

variable {α : Type} [Ord α] [Std.TransOrd α]

theorem insert_erase (indexes : IndexCatalog α) (key : String) (index : PropertyIndex α) :
    Std.ExtTreeMap.insert (Std.ExtTreeMap.erase indexes key) key index =
      Std.ExtTreeMap.insert indexes key index := by
  refine Std.ExtTreeMap.ext_getElem? fun k => ?_
  simp only [Std.ExtTreeMap.getElem?_insert, Std.ExtTreeMap.getElem?_erase]
  split <;> rfl

theorem Alike.settled {indexes : IndexCatalog α} (h : indexes.Alike indexes) {key : String}
    {index : PropertyIndex α} (found : indexes[key]? = some index) : index.Settled := by
  have alike := h key
  rw [found] at alike
  cases alike with
  | some alike => exact alike.left

variable [Std.LawfulEqOrd α]

theorem fill_insert {indexes : IndexCatalog α} {key : String} {index filled : PropertyIndex α}
    {holders : List (PropertyValue × α)} (built : index.insertPairs? holders = .ok filled) :
    IndexCatalog.fill (Std.ExtTreeMap.insert indexes key index) key holders =
      (Std.ExtTreeMap.insert indexes key filled, .ok ()) := by
  induction holders generalizing index with
  | nil =>
      cases built
      rfl
  | cons holder rest ih =>
      obtain ⟨value, a⟩ := holder
      rw [PropertyIndex.insertPairs?] at built
      split at built
      · rename_i after inserted
        have stored : IndexCatalog.insert? (Std.ExtTreeMap.insert indexes key index) key value a =
            .ok (Std.ExtTreeMap.insert indexes key after) := by
          rw [IndexCatalog.insert?, Std.ExtTreeMap.getElem?_insert_self]
          simp only [inserted, Except.map, insert_insert]
        rw [fill, stored]
        exact ih built
      · cases built

theorem build_drop {indexes : IndexCatalog α} {key : String} {fresh : PropertyIndex α}
    {holders : List (PropertyValue × α)}
    (built : (∅ : PropertyIndex α).insertPairs? holders = .ok fresh) :
    (indexes.drop key).1.build key holders = (Std.ExtTreeMap.insert indexes key fresh, .ok ()) := by
  have absent : IndexCatalog.has (Std.ExtTreeMap.erase indexes key) key = false := by
    simp [IndexCatalog.has]
  rw [drop, build, create, absent]
  simp only [Bool.false_eq_true, if_false, insert_erase, fill_insert built]

theorem Alike.exists_rebuilt {indexes : IndexCatalog α} (h : indexes.Alike indexes) {key : String}
    {index : PropertyIndex α} (found : indexes[key]? = some index)
    {holders : List (PropertyValue × α)} (lists : index.Lists holders) :
    ∃ fresh : PropertyIndex α,
      (indexes.drop key).1.build key holders = (Std.ExtTreeMap.insert indexes key fresh, .ok ()) ∧
        fresh.Renews index ∧
        (fresh.shape = index.shape → Alike (Std.ExtTreeMap.insert indexes key fresh) indexes) := by
  have settled := h.settled found
  obtain ⟨fresh, built, fresh_settled, holds, below⟩ := settled.exists_renewed lists
  exact ⟨fresh, build_drop built, settled.renews fresh_settled holds below,
    fun same => rel_insert_self h found ⟨fresh_settled, settled, holds, same⟩⟩

end IndexCatalog

namespace Graph

def renewNodeIndex (g : Graph) (key : String) : Graph × Except GraphError Unit :=
  (g.dropNodeIndex key).1.addNodeIndex key

def renewEdgeIndex (g : Graph) (key : String) : Graph × Except GraphError Unit :=
  (g.dropEdgeIndex key).1.addEdgeIndex key

variable {g : Graph} {key : String}

theorem addNodeIndex_eq (g : Graph) (key : String) : g.addNodeIndex key =
    ({ g with nodeIndexes := (g.nodeIndexes.build key (g.nodeHolders key)).1 },
      (g.nodeIndexes.build key (g.nodeHolders key)).2.mapError .incomparable) := rfl

theorem addEdgeIndex_eq (g : Graph) (key : String) : g.addEdgeIndex key =
    ({ g with edgeIndexes := (g.edgeIndexes.build key (g.edgeHolders key)).1 },
      (g.edgeIndexes.build key (g.edgeHolders key)).2.mapError .incomparable) := rfl

theorem Reachable.renewNodeIndex (reachable : g.Reachable) {index : PropertyIndex NodeId}
    (found : g.nodeIndexes[key]? = some index) : ∃ fresh : PropertyIndex NodeId,
      g.renewNodeIndex key =
        ({ g with nodeIndexes := Std.ExtTreeMap.insert g.nodeIndexes key fresh }, .ok ()) ∧
      fresh.Renews index ∧
      (fresh.shape = index.shape → ∀ changes : List Change,
        (changes.foldl apply (g.renewNodeIndex key).1).Agrees (changes.foldl apply g)) := by
  have alike := reachable.alike_self
  have lists : index.Lists (g.nodeHolders key) := fun value id =>
    reachable.sound.mem_nodeHolders.trans (reachable.sound.nodeIndexes key index found).mem.symm
  obtain ⟨fresh, rebuilt, renews, indexes⟩ := alike.nodeIndexes.exists_rebuilt found lists
  have renewed : g.renewNodeIndex key =
      ({ g with nodeIndexes := Std.ExtTreeMap.insert g.nodeIndexes key fresh }, .ok ()) := by
    have built : IndexCatalog.build (g.dropNodeIndex key).1.nodeIndexes key
        ((g.dropNodeIndex key).1.nodeHolders key) =
          (Std.ExtTreeMap.insert g.nodeIndexes key fresh, .ok ()) := rebuilt
    rw [Graph.renewNodeIndex, addNodeIndex_eq, built]
    rfl
  refine ⟨fresh, renewed, renews, fun shape changes => ?_⟩
  have after : Alike { g with nodeIndexes := Std.ExtTreeMap.insert g.nodeIndexes key fresh } g :=
    ⟨rfl, rfl, indexes shape, alike.edgeIndexes⟩
  rw [renewed]
  exact (after.foldl changes).agrees

theorem Reachable.renewEdgeIndex (reachable : g.Reachable) {index : PropertyIndex EdgeId}
    (found : g.edgeIndexes[key]? = some index) : ∃ fresh : PropertyIndex EdgeId,
      g.renewEdgeIndex key =
        ({ g with edgeIndexes := Std.ExtTreeMap.insert g.edgeIndexes key fresh }, .ok ()) ∧
      fresh.Renews index ∧
      (fresh.shape = index.shape → ∀ changes : List Change,
        (changes.foldl apply (g.renewEdgeIndex key).1).Agrees (changes.foldl apply g)) := by
  have alike := reachable.alike_self
  have lists : index.Lists (g.edgeHolders key) := fun value id =>
    reachable.sound.mem_edgeHolders.trans (reachable.sound.edgeIndexes key index found).mem.symm
  obtain ⟨fresh, rebuilt, renews, indexes⟩ := alike.edgeIndexes.exists_rebuilt found lists
  have renewed : g.renewEdgeIndex key =
      ({ g with edgeIndexes := Std.ExtTreeMap.insert g.edgeIndexes key fresh }, .ok ()) := by
    have built : IndexCatalog.build (g.dropEdgeIndex key).1.edgeIndexes key
        ((g.dropEdgeIndex key).1.edgeHolders key) =
          (Std.ExtTreeMap.insert g.edgeIndexes key fresh, .ok ()) := rebuilt
    rw [Graph.renewEdgeIndex, addEdgeIndex_eq, built]
    rfl
  refine ⟨fresh, renewed, renews, fun shape changes => ?_⟩
  have after : Alike { g with edgeIndexes := Std.ExtTreeMap.insert g.edgeIndexes key fresh } g :=
    ⟨rfl, rfl, alike.nodeIndexes, indexes shape⟩
  rw [renewed]
  exact (after.foldl changes).agrees

def loop : Graph :=
  [.newNode ∅ (.ofPairs [("k", .integer 1)]),
    .newEdge ⟨0⟩ ⟨0⟩ ⟨"T"⟩ (.ofPairs [("k", .string "a")]), .addNodeIndex "k",
    .addEdgeIndex "k"].foldl apply ∅

theorem reachable_loop : loop.Reachable := Reachable.empty.foldl _

end Graph

theorem acceptance_of_reachable {α : Type} [Ord α] [Std.TransOrd α] [Std.LawfulEqOrd α] :
    (∀ index : PropertyIndex α, index.Reachable →
      (∀ value, ((∃ holders, index.get? value = .ok holders) ↔ index.check? value = .ok ()) ∧
        ∀ a, (∃ after, index.insert? value a = .ok after) ↔ index.check? value = .ok ()) ∧
      ∀ pairs, index.Lists pairs → ∃ fresh, (∅ : PropertyIndex α).insertPairs? pairs = .ok fresh ∧
        fresh.Renews index ∧ ∀ others, index.Lists others → ∃ again,
          (∅ : PropertyIndex α).insertPairs? others = .ok again ∧ again.Alike fresh) ∧
    ∀ (g : Graph) (key : String), g.Reachable →
      (∀ index, g.nodeIndexes[key]? = some index → ∃ fresh : PropertyIndex NodeId,
        g.renewNodeIndex key =
          ({ g with nodeIndexes := Std.ExtTreeMap.insert g.nodeIndexes key fresh }, .ok ()) ∧
        fresh.Renews index ∧
        (fresh.shape = index.shape → ∀ changes : List Change,
          (changes.foldl Graph.apply (g.renewNodeIndex key).1).Agrees
            (changes.foldl Graph.apply g))) ∧
      ∀ index, g.edgeIndexes[key]? = some index → ∃ fresh : PropertyIndex EdgeId,
        g.renewEdgeIndex key =
          ({ g with edgeIndexes := Std.ExtTreeMap.insert g.edgeIndexes key fresh }, .ok ()) ∧
        fresh.Renews index ∧
        (fresh.shape = index.shape → ∀ changes : List Change,
          (changes.foldl Graph.apply (g.renewEdgeIndex key).1).Agrees
            (changes.foldl Graph.apply g)) := by
  refine ⟨fun index reachable => ⟨fun value => ⟨PropertyIndex.get?_isOk_iff_check?,
    fun a => PropertyIndex.insert?_isOk_iff_check?⟩, fun pairs lists => ?_⟩,
    fun g key reachable => ⟨fun index found => reachable.renewNodeIndex found,
      fun index found => reachable.renewEdgeIndex found⟩⟩
  obtain ⟨fresh, built, settled, holds, below⟩ := reachable.settled.exists_renewed lists
  refine ⟨fresh, built, reachable.settled.renews settled holds below, fun others relists => ?_⟩
  obtain ⟨again, rebuilt, -⟩ := reachable.settled.exists_renewed relists
  have members : ∀ pair, pair ∈ others ↔ pair ∈ pairs := fun pair =>
    (relists pair.1 pair.2).trans (lists pair.1 pair.2).symm
  exact ⟨again, rebuilt, PropertyIndex.alike_of_insertPairs? members rebuilt built⟩

namespace PropertyIndex

def twoLists : PropertyIndex NodeId :=
  [.insert (.list [.integer 1]) ⟨1⟩, .insert (.list []) ⟨2⟩].foldl apply ∅

def emptyList : PropertyIndex NodeId := twoLists.apply (.remove (.list [.integer 1]) ⟨1⟩)

theorem reachable_twoLists : twoLists.Reachable := Reachable.empty.foldl _

theorem holds_twoLists (value : PropertyValue) (id : NodeId) : twoLists.Holds value id ↔
    (value = .list [] ∧ id = ⟨2⟩) ∨ (value = .list [.integer 1] ∧ id = ⟨1⟩) := by
  obtain ⟨settled, one⟩ := settled_empty.insert?
    (show (∅ : PropertyIndex NodeId).insert? (.list [.integer 1]) ⟨1⟩ = .ok _ from rfl)
  obtain ⟨-, two⟩ := settled.insert?
    (show PropertyIndex.insert? _ (.list []) ⟨2⟩ = .ok twoLists from rfl)
  rw [two, one, or_iff_left not_holds_empty]

theorem holds_emptyList (value : PropertyValue) (id : NodeId) :
    emptyList.Holds value id ↔ value = .list [] ∧ id = ⟨2⟩ := by
  refine ((reachable_twoLists.settled.erase _ _).2 value id).trans ?_
  rw [holds_twoLists, or_and_right, and_not_self_iff, or_false]
  exact and_iff_left_of_imp fun same => by simp [same.1]

end PropertyIndex

open PropertyIndex in
theorem acceptance_of_reachable_cases :
    twoLists.Reachable ∧ twoLists.Lists [(.list [], ⟨2⟩), (.list [.integer 1], ⟨1⟩)] ∧
      (∃ fresh : PropertyIndex NodeId,
        (∅ : PropertyIndex NodeId).insertPairs? [(.list [], ⟨2⟩), (.list [.integer 1], ⟨1⟩)] =
          .ok fresh ∧
        ∀ value, fresh.check? value = .ok () ↔ twoLists.check? value = .ok ()) ∧
      Graph.loop.Reachable ∧
      (∀ changes : List Change, (changes.foldl Graph.apply (Graph.loop.renewNodeIndex "k").1).Agrees
        (changes.foldl Graph.apply Graph.loop)) ∧
      ∀ changes : List Change, (changes.foldl Graph.apply (Graph.loop.renewEdgeIndex "k").1).Agrees
        (changes.foldl Graph.apply Graph.loop) := by
  have lists : twoLists.Lists [(.list [], ⟨2⟩), (.list [.integer 1], ⟨1⟩)] := fun value id => by
    simp [holds_twoLists]
  obtain ⟨-, renewed⟩ := (acceptance_of_reachable (α := NodeId)).1 twoLists reachable_twoLists
  obtain ⟨fresh, built, renews, -⟩ := renewed _ lists
  have integers : twoLists.Holds (.list [.integer 1]) ⟨1⟩ := (holds_twoLists _ _).mpr (.inr ⟨rfl, rfl⟩)
  obtain ⟨at_nodes, at_edges⟩ :=
    (acceptance_of_reachable (α := NodeId)).2 Graph.loop "k" Graph.reachable_loop
  obtain ⟨fresh_nodes, -, nodes, node_changes⟩ := at_nodes _ rfl
  obtain ⟨fresh_edges, -, edges, edge_changes⟩ := at_edges _ rfl
  have sound := Graph.reachable_loop.sound
  -- Each index holds a value that leaves nothing open about the items of lists.
  have node_held := (sound.nodeIndexes "k" _ rfl).mem.mpr
    (show NodeHolds Graph.loop.node? "k" (.integer 1) ⟨0⟩ from ⟨_, rfl, rfl⟩)
  have edge_held := (sound.edgeIndexes "k" _ rfl).mem.mpr
    (show EdgeHolds Graph.loop.edge? "k" (.string "a") ⟨0⟩ from ⟨_, rfl, rfl⟩)
  exact ⟨reachable_twoLists, lists, ⟨fresh, built, renews.alike.mpr
      (renews.complete _ _ _ integers rfl rfl)⟩, Graph.reachable_loop,
    node_changes (nodes.complete _ _ _ node_held rfl rfl),
    edge_changes (edges.complete _ _ _ edge_held rfl rfl)⟩

open PropertyIndex in
/-- A list of strings is refused beside the empty list, because of a list of integers that is gone. -/
theorem not_acceptance_of_held :
    emptyList.Reachable ∧ emptyList.Lists [(.list [], ⟨2⟩)] ∧
      emptyList.check? (.list [.string "a"]) = .error ⟨.string, .integer⟩ ∧
      ∃ fresh : PropertyIndex NodeId,
        (∅ : PropertyIndex NodeId).insertPairs? [(.list [], ⟨2⟩)] = .ok fresh ∧
        fresh.check? (.list [.string "a"]) = .ok () :=
  ⟨reachable_twoLists.step _, fun value id => by simp [holds_emptyList], rfl, _, rfl, rfl⟩

end PropertyGraph
