import PropertyGraph.Proofs.Index.LabelBuckets
import Mathlib.Data.List.Induction
import Mathlib.Data.List.Perm.Subperm

namespace PropertyGraph

inductive BucketChange where
  | addNode (id : NodeId) (labels : LabelSet)
  | removeNode (id : NodeId) (labels : LabelSet)
  | addEdge (id : EdgeId) (type : EdgeType)
  | removeEdge (id : EdgeId) (type : EdgeType)

section Histories

variable {χ : Type} {does undoes : χ → Prop} {changes : List χ} {change : χ}

/-- One of the changes does it, and none after that one undoes it. -/
def Stands (does undoes : χ → Prop) (changes : List χ) : Prop :=
  ∃ before change after, changes = before ++ change :: after ∧ does change ∧
    ∀ later ∈ after, ¬undoes later

theorem not_stands_nil : ¬Stands does undoes [] := by
  rintro ⟨before, change, after, split, -⟩
  simp at split

theorem stands_concat :
    Stands does undoes (changes ++ [change]) ↔
      does change ∨ Stands does undoes changes ∧ ¬undoes change := by
  constructor
  · rintro ⟨before, first, after, split, done, kept⟩
    rcases List.eq_nil_or_concat after with rfl | ⟨earlier, last, rfl⟩
    · obtain ⟨rfl, same⟩ := List.append_inj' split rfl
      exact .inl (List.singleton_inj.mp same ▸ done)
    · rw [List.concat_eq_append, ← List.cons_append, ← List.append_assoc] at split
      obtain ⟨rfl, same⟩ := List.append_inj' split rfl
      rw [List.concat_eq_append, List.forall_mem_append, List.forall_mem_singleton,
        ← List.singleton_inj.mp same] at kept
      exact .inr ⟨⟨before, first, earlier, rfl, done, kept.1⟩, kept.2⟩
  · rintro (done | ⟨⟨before, first, after, rfl, done, kept⟩, last⟩)
    · exact ⟨changes, change, [], rfl, done, by simp⟩
    · refine ⟨before, first, after ++ [change], by simp, done, ?_⟩
      exact List.forall_mem_append.mpr ⟨kept, List.forall_mem_singleton.mpr last⟩

end Histories

namespace BucketChange

variable {changes : List BucketChange}

def Labelled (changes : List BucketChange) (id : NodeId) (label : Label) : Prop :=
  Stands (fun change => ∃ labels, change = addNode id labels ∧ label ∈ labels)
    (fun change => ∃ labels, change = removeNode id labels ∧ label ∈ labels) changes

def Bare (changes : List BucketChange) (id : NodeId) : Prop :=
  Stands (fun change => ∃ labels, change = addNode id labels ∧ labels.isEmpty = true)
    (fun change => ∃ labels, change = removeNode id labels ∧ labels.isEmpty = true) changes

def Typed (changes : List BucketChange) (id : EdgeId) (type : EdgeType) : Prop :=
  Stands (· = addEdge id type) (· = removeEdge id type) changes

theorem labelled_concat {change : BucketChange} {id : NodeId} {label : Label} :
    Labelled (changes ++ [change]) id label ↔
      (∃ labels, change = addNode id labels ∧ label ∈ labels) ∨
        Labelled changes id label ∧ ¬∃ labels, change = removeNode id labels ∧ label ∈ labels :=
  stands_concat

theorem bare_concat {change : BucketChange} {id : NodeId} :
    Bare (changes ++ [change]) id ↔
      (∃ labels, change = addNode id labels ∧ labels.isEmpty = true) ∨
        Bare changes id ∧ ¬∃ labels, change = removeNode id labels ∧ labels.isEmpty = true :=
  stands_concat

theorem typed_concat {change : BucketChange} {id : EdgeId} {type : EdgeType} :
    Typed (changes ++ [change]) id type ↔
      change = addEdge id type ∨ Typed changes id type ∧ ¬change = removeEdge id type :=
  stands_concat

/-- An edge is filed under a type only while it stands under no other. -/
def OneTypeEach (changes : List BucketChange) : Prop :=
  ∀ before id type after, changes = before ++ addEdge id type :: after →
    ∀ other, Typed before id other → other = type

theorem oneTypeEach_concat {change : BucketChange} : OneTypeEach (changes ++ [change]) ↔
    OneTypeEach changes ∧ ∀ id type, change = addEdge id type →
      ∀ other, Typed changes id other → other = type := by
  constructor
  · intro each
    refine ⟨fun before id type after split => ?_, fun id type filed => ?_⟩
    · exact each before id type (after ++ [change]) (by simp [split])
    · exact each changes id type [] (by rw [filed])
  · rintro ⟨each, last⟩ before id type after split
    rcases List.eq_nil_or_concat after with rfl | ⟨earlier, final, rfl⟩
    · obtain ⟨rfl, same⟩ := List.append_inj' split rfl
      exact last id type (List.singleton_inj.mp same)
    · rw [List.concat_eq_append, ← List.cons_append, ← List.append_assoc] at split
      exact each before id type earlier (List.append_inj' split rfl).1

theorem OneTypeEach.apart (h : OneTypeEach changes) {id : EdgeId} {s t : EdgeType}
    (under_s : Typed changes id s) (under_t : Typed changes id t) : s = t := by
  induction changes using List.reverseRecOn with
  | nil => exact absurd under_s not_stands_nil
  | append_singleton changes change ih =>
      obtain ⟨earlier, last⟩ := oneTypeEach_concat.mp h
      rcases typed_concat.mp under_s with filed | ⟨before_s, -⟩
      · rcases typed_concat.mp under_t with again | ⟨before_t, -⟩
        · cases filed.symm.trans again
          rfl
        · exact (last id s filed t before_t).symm
      · rcases typed_concat.mp under_t with filed | ⟨before_t, -⟩
        · exact last id t filed s before_s
        · exact ih earlier before_s before_t

end BucketChange

structure Candidates.Exact {α : Type} (c : Candidates α) (wanted : α → Prop) (bound : Nat) :
    Prop where
  once : c.items.Nodup
  mem : ∀ a, a ∈ c.items ↔ wanted a
  maxSize : c.maxSize = some bound
  within : c.items.length ≤ bound

theorem Candidates.Exact.perm {α : Type} {c d : Candidates α} {p q : α → Prop} {m n : Nat}
    (left : c.Exact p m) (right : d.Exact q n) (same : ∀ a, p a ↔ q a) : c.items.Perm d.items :=
  (List.perm_ext_iff_of_nodup left.once right.once).mpr fun a =>
    (left.mem a).trans ((same a).trans (right.mem a).symm)

namespace LabelBuckets

def apply (b : LabelBuckets) : BucketChange → LabelBuckets
  | .addNode id labels => b.addNode id labels
  | .removeNode id labels => b.removeNode id labels
  | .addEdge id type => b.addEdge id type
  | .removeEdge id type => b.removeEdge id type

open BucketChange

theorem sound_foldl (changes : List BucketChange) :
    (changes.foldl apply ∅).Sound (Labelled changes) (Bare changes) (Typed changes) := by
  induction changes using List.reverseRecOn with
  | nil =>
      refine sound_empty.congr (fun _ _ => ?_) (fun _ => ?_) fun _ _ => ?_
      all_goals exact iff_of_false not_false not_stands_nil
  | append_singleton changes change ih =>
      rw [List.foldl_append, List.foldl_cons, List.foldl_nil]
      cases change with
      | addNode id labels =>
          refine (ih.addNode id labels).congr (fun n label => ?_) (fun n => ?_) fun e type => ?_
          · simp [labelled_concat, eq_comm (a := n)]
          · simp [bare_concat, eq_comm (a := n)]
          · simp [typed_concat]
      | removeNode id labels =>
          refine (ih.removeNode id labels).congr (fun n label => ?_) (fun n => ?_) fun e type => ?_
          · simp [labelled_concat, eq_comm (a := n)]
          · simp [bare_concat, eq_comm (a := n)]
          · simp [typed_concat]
      | addEdge id type =>
          refine (ih.addEdge id type).congr (fun n label => ?_) (fun n => ?_) fun e t => ?_
          · simp [labelled_concat]
          · simp [bare_concat]
          · simp [typed_concat, eq_comm (a := e), eq_comm (a := t), and_comm]
      | removeEdge id type =>
          refine (ih.removeEdge id type).congr (fun n label => ?_) (fun n => ?_) fun e t => ?_
          · simp [labelled_concat]
          · simp [bare_concat]
          · rw [typed_concat, removeEdge.injEq, and_comm (a := id = e)]
            simp [eq_comm (a := e), eq_comm (a := t)]

section Answers

structure AnswersNodes (b : LabelBuckets) : Prop where
  all : ∀ labels, labels ≠ [] → ∃ n,
    (b.nodesWithAll labels).Exact (fun id => ∀ label ∈ labels, id ∈ b.nodes.itemsAt label) n ∧
      (∃ label ∈ labels, (b.nodes.itemsAt label).length = n) ∧
      ∀ label ∈ labels, n ≤ (b.nodes.itemsAt label).length
  missing : ∀ labels, ∀ label ∈ labels, b.nodeBucket? label = none →
    (b.nodesWithAll labels).maxSize = some 0
  any : ∀ labels, ∃ n,
    (b.nodesWithAny labels).Exact (fun id => ∃ label ∈ labels, id ∈ b.nodes.itemsAt label) n
  alike : ∀ labels labels' : List Label, (∀ label, label ∈ labels ↔ label ∈ labels') →
    (b.nodesWithAll labels).items.Perm (b.nodesWithAll labels').items ∧
      (b.nodesWithAny labels).items.Perm (b.nodesWithAny labels').items

structure AnswersEdges (b : LabelBuckets) : Prop where
  any : ∀ types, (b.edgesWithAny types).Exact
    (fun id => ∃ type ∈ types, id ∈ b.edges.itemsAt type) (b.edgesWithAny types).items.length
  alike : ∀ types types' : List EdgeType, (∀ type, type ∈ types ↔ type ∈ types') →
    (b.edgesWithAny types).items.Perm (b.edgesWithAny types').items

variable {b : LabelBuckets} {labels : List Label}

theorem exists_maxSize_nodesWithAll (some_label : labels ≠ []) : ∃ n,
    (b.nodesWithAll labels).maxSize = some n ∧
      (∃ label ∈ labels, (b.nodes.itemsAt label).length = n) ∧
      ∀ label ∈ labels, n ≤ (b.nodes.itemsAt label).length := by
  unfold nodesWithAll
  split
  · rename_i missing
    obtain ⟨label, mem, empty⟩ := exists_empty_of_mapM_none missing
    exact ⟨0, rfl, ⟨label, mem, by rw [empty, List.length_nil]⟩, fun _ _ => Nat.zero_le _⟩
  · rename_i none_asked
    have same := map_toList_of_mapM none_asked
    exact absurd (List.map_eq_nil_iff.mp same.symm) some_label
  · rename_i first rest found
    have same := map_toList_of_mapM found
    refine ⟨_, rfl, ?_, ?_⟩
    · have there := List.mem_zipIdx_iff_getElem?.mp (smallest_mem_zipIdx first rest)
      have listed : (smallest (first, 0) (rest.zipIdx 1)).1.toList ∈ labels.map b.nodes.itemsAt :=
        same ▸ List.mem_map_of_mem (List.mem_of_getElem? there)
      obtain ⟨label, mem, at_label⟩ := List.mem_map.mp listed
      exact ⟨label, mem, by rw [at_label, InsertionSet.size_eq_length]⟩
    · intro label mem
      have listed : b.nodes.itemsAt label ∈ (first :: rest).map InsertionSet.toList :=
        same ▸ List.mem_map_of_mem mem
      obtain ⟨bucket, there, at_bucket⟩ := List.mem_map.mp listed
      obtain ⟨i, at_i⟩ := List.getElem?_of_mem there
      have at_i : (bucket, i) ∈ (first :: rest).zipIdx := List.mem_zipIdx_iff_getElem?.mpr at_i
      rw [← at_bucket, ← InsertionSet.size_eq_length]
      exact size_smallest_le (first, 0) (rest.zipIdx 1) (bucket, i) at_i

theorem exact_nodesWithAll (some_label : labels ≠ []) : ∃ n,
    (b.nodesWithAll labels).Exact (fun id => ∀ label ∈ labels, id ∈ b.nodes.itemsAt label) n ∧
      (∃ label ∈ labels, (b.nodes.itemsAt label).length = n) ∧
      ∀ label ∈ labels, n ≤ (b.nodes.itemsAt label).length := by
  obtain ⟨n, announced, ⟨label, mem, size⟩, least⟩ := exists_maxSize_nodesWithAll some_label
  have once := b.nodup_nodesWithAll labels
  have within : (b.nodesWithAll labels).items ⊆ b.nodes.itemsAt label := fun id found =>
    (mem_nodesWithAll some_label id).mp found label mem
  exact ⟨n, ⟨once, mem_nodesWithAll some_label, announced, size ▸ (once.subperm within).length_le⟩,
    ⟨label, mem, size⟩, least⟩

theorem exact_nodesWithAny (b : LabelBuckets) (labels : List Label) : ∃ n,
    (b.nodesWithAny labels).Exact (fun id => ∃ label ∈ labels, id ∈ b.nodes.itemsAt label) n :=
  ⟨_, nodup_unionFrom _ _, mem_nodesWithAny, rfl, length_unionFrom_le _ _⟩

theorem exact_edgesWithAny
    (apart : ∀ {id s t}, id ∈ b.edges.itemsAt s → id ∈ b.edges.itemsAt t → s = t)
    (types : List EdgeType) : (b.edgesWithAny types).Exact
      (fun id => ∃ type ∈ types, id ∈ b.edges.itemsAt type) (b.edgesWithAny types).items.length :=
  ⟨nodup_edgesWithAny types apart, mem_edgesWithAny, congrArg some (totalSize_eq_length _),
    Nat.le_refl _⟩

theorem perm_nodesWithAll {labels' : List Label}
    (same : ∀ label, label ∈ labels ↔ label ∈ labels') :
    (b.nodesWithAll labels).items.Perm (b.nodesWithAll labels').items := by
  by_cases none_asked : labels = []
  · have none_asked' : labels' = [] := List.eq_nil_iff_forall_not_mem.mpr fun label mem => by
      simpa [none_asked] using (same label).mpr mem
    rw [none_asked, none_asked']
  · have some_label' : labels' ≠ [] := by
      obtain ⟨label, mem⟩ := List.exists_mem_of_ne_nil labels none_asked
      exact List.ne_nil_of_mem ((same label).mp mem)
    obtain ⟨_, left, -⟩ := exact_nodesWithAll (b := b) none_asked
    obtain ⟨_, right, -⟩ := exact_nodesWithAll (b := b) some_label'
    exact left.perm right fun id => forall_congr' fun label => by rw [same]

theorem answersNodes (b : LabelBuckets) : b.AnswersNodes where
  all _ some_label := exact_nodesWithAll some_label
  missing labels label mem absent := by
    obtain ⟨n, announced, -, least⟩ :=
      exists_maxSize_nodesWithAll (b := b) (List.ne_nil_of_mem mem)
    have empty : b.nodes.itemsAt label = [] := congrArg listed absent
    have zero := least label mem
    rw [empty, List.length_nil, Nat.le_zero] at zero
    rw [announced, zero]
  any := exact_nodesWithAny b
  alike labels labels' same := by
    obtain ⟨_, left⟩ := exact_nodesWithAny b labels
    obtain ⟨_, right⟩ := exact_nodesWithAny b labels'
    exact ⟨perm_nodesWithAll same, left.perm right fun id => exists_congr fun label => by rw [same]⟩

theorem answersEdges
    (apart : ∀ {id s t}, id ∈ b.edges.itemsAt s → id ∈ b.edges.itemsAt t → s = t) :
    b.AnswersEdges where
  any := exact_edgesWithAny apart
  alike types types' same :=
    (exact_edgesWithAny apart types).perm (exact_edgesWithAny apart types') fun id =>
      exists_congr fun type => by rw [same]

theorem queries_exact (changes : List BucketChange) :
    let b := changes.foldl apply ∅
    b.AnswersNodes ∧ (OneTypeEach changes → b.AnswersEdges) ∧
      b.Sound (Labelled changes) (Bare changes) (Typed changes) := by
  have sound := sound_foldl changes
  refine ⟨answersNodes _, fun each => answersEdges fun under_s under_t => ?_, sound⟩
  exact each.apart (sound.edges.mp under_s) (sound.edges.mp under_t)

end Answers

def refiled : List BucketChange :=
  [.addNode ⟨1⟩ (.ofList [⟨"A"⟩, ⟨"B"⟩]), .addNode ⟨2⟩ (.ofList [⟨"A"⟩]),
    .addNode ⟨3⟩ (.ofList [⟨"A"⟩, ⟨"B"⟩, ⟨"C"⟩]), .addNode ⟨4⟩ ∅, .addNode ⟨2⟩ (.ofList [⟨"B"⟩]),
    .removeNode ⟨2⟩ (.ofList [⟨"A"⟩, ⟨"C"⟩]), .addEdge ⟨1⟩ ⟨"T"⟩, .addEdge ⟨2⟩ ⟨"U"⟩,
    .removeEdge ⟨1⟩ ⟨"T"⟩, .addEdge ⟨1⟩ ⟨"U"⟩]

theorem oneTypeEach_refiled : OneTypeEach refiled := by
  have untyped (id : EdgeId) (type : EdgeType) : ¬Typed (refiled.take 6) id type := by
    rintro ⟨before, _, after, split, rfl, -⟩
    have mem : BucketChange.addEdge id type ∈ refiled.take 6 := by simp [split]
    simp [refiled] at mem
  have nodes : OneTypeEach (refiled.take 6) := fun before id type after split => by
    have mem : BucketChange.addEdge id type ∈ refiled.take 6 := by simp [split]
    simp [refiled] at mem
  have split : refiled = refiled.take 6 ++ [.addEdge ⟨1⟩ ⟨"T"⟩] ++ [.addEdge ⟨2⟩ ⟨"U"⟩] ++
      [.removeEdge ⟨1⟩ ⟨"T"⟩] ++ [.addEdge ⟨1⟩ ⟨"U"⟩] := rfl
  rw [split]
  simp only [oneTypeEach_concat, typed_concat, nodes, untyped]
  simp

theorem queries_exact_refiled :
    OneTypeEach refiled ∧
      let b := refiled.foldl apply ∅
      b.nodesWithAll [⟨"A"⟩, ⟨"B"⟩, ⟨"A"⟩] = ⟨[⟨1⟩, ⟨3⟩], some 2⟩ ∧
        b.nodesWithAll [⟨"A"⟩, ⟨"Z"⟩] = ⟨[], some 0⟩ ∧
        b.nodesWithAny [⟨"C"⟩, ⟨"B"⟩, ⟨"C"⟩] = ⟨[⟨3⟩, ⟨1⟩, ⟨2⟩], some 4⟩ ∧
        b.edgesWithAny [⟨"T"⟩, ⟨"U"⟩, ⟨"U"⟩] = ⟨[⟨2⟩, ⟨1⟩], some 2⟩ ∧
        b.AnswersNodes ∧ b.AnswersEdges ∧
        b.Sound (Labelled refiled) (Bare refiled) (Typed refiled) := by
  obtain ⟨nodes, edges, sound⟩ := queries_exact refiled
  exact ⟨oneTypeEach_refiled, by decide, by decide, by decide, by decide, nodes,
    edges oneTypeEach_refiled, sound⟩

end LabelBuckets

end PropertyGraph
