import PropertyGraph.Proofs.Graph.Reachable
import PropertyGraph.Proofs.Match.Slots

namespace PropertyGraph

namespace Store

variable {s : Store} {filter : EdgeFilter} {direction : Direction} {near far : NodeId}
  {id : EdgeId} {edge : Edge}

theorem leads_iff_mem_orientations (live : s.edge? id = some edge) :
    s.Leads direction filter near id far ↔ filter.accepts? edge = .ok true ∧
      (near, far) ∈ orientations edge.source edge.target direction := by
  rw [EdgeFilter.accepts?_eq_true_iff, mem_orientations]
  constructor
  · rintro ⟨other, found, admits, crosses⟩
    rw [live] at found
    cases found
    exact ⟨admits, crosses⟩
  · rintro ⟨admits, crosses⟩
    exact ⟨edge, live, admits, crosses⟩

theorem Sound.count_expand? (h : s.Sound) {steps : List (EdgeId × NodeId)}
    (ok : s.expand? near direction filter = .ok steps) (mem : (id, far) ∈ steps) :
    steps.count (id, far) = 1 :=
  List.count_eq_one_of_mem (h.nodup_expand? ok).of_map mem

end Store

namespace Graph

theorem readings_agree {g : Graph} (reachable : g.Reachable) {left right : NodeId} {id : EdgeId}
    {edge : Edge} (live : g.edge? id = some edge) {direction : Direction} {filter : EdgeFilter}
    {forth back : List (EdgeId × NodeId)}
    (expanded : g.store.expand? left direction filter = .ok forth)
    (returned : g.store.expand? right direction.reversed filter = .ok back) :
    ((id, right) ∈ forth ↔ (id, left) ∈ back) ∧
      ((id, right) ∈ forth ↔ filter.accepts? edge = .ok true ∧
        (left, right) ∈ orientations edge.source edge.target direction) ∧
      ((id, right) ∈ forth → forth.count (id, right) = 1) ∧
      ((id, left) ∈ back → back.count (id, left) = 1) := by
  have sound := reachable.sound.store
  have from_left : (id, right) ∈ forth ↔ g.store.Leads direction filter left id right :=
    sound.mem_expand? expanded
  have from_right : (id, left) ∈ back ↔ g.store.Leads direction filter left id right :=
    (sound.mem_expand? returned).trans Store.leads_reversed
  exact ⟨from_left.trans from_right.symm,
    from_left.trans (Store.leads_iff_mem_orientations live),
    sound.count_expand? expanded, sound.count_expand? returned⟩

def looped : Graph :=
  [.newNode ∅ ∅, .newNode ∅ ∅, .newEdge ⟨0⟩ ⟨0⟩ ⟨"T"⟩ (.ofPairs [("k", .integer 1)]),
    .newEdge ⟨1⟩ ⟨0⟩ ⟨"T"⟩ (.ofPairs [("k", .integer 1)]),
    .newEdge ⟨0⟩ ⟨1⟩ ⟨"T"⟩ (.ofPairs [("k", .integer 2)]),
    .newEdge ⟨0⟩ ⟨0⟩ ⟨"U"⟩ (.ofPairs [("k", .string "1")])].foldl apply ∅

theorem reachable_looped : looped.Reachable := Reachable.empty.foldl _

theorem readings_agree_looped :
    let filter : EdgeFilter := ⟨[⟨"T"⟩, ⟨"T"⟩], [("k", .integer 1)]⟩
    let loop : Edge := ⟨⟨0⟩, ⟨0⟩, ⟨0⟩, ⟨"T"⟩, .ofPairs [("k", .integer 1)]⟩
    let edge : Edge := ⟨⟨1⟩, ⟨1⟩, ⟨0⟩, ⟨"T"⟩, .ofPairs [("k", .integer 1)]⟩
    looped.Reachable ∧ looped.edge? ⟨0⟩ = some loop ∧ looped.edge? ⟨1⟩ = some edge ∧
      looped.store.expand? ⟨0⟩ .both filter = .ok [(⟨0⟩, ⟨0⟩), (⟨1⟩, ⟨1⟩)] ∧
      looped.store.expand? ⟨0⟩ .incoming filter = .ok [(⟨0⟩, ⟨0⟩), (⟨1⟩, ⟨1⟩)] ∧
      looped.store.expand? ⟨1⟩ .outgoing filter = .ok [(⟨1⟩, ⟨0⟩)] ∧
      (filter.accepts? loop = .ok true ∧ (⟨0⟩, ⟨0⟩) ∈ orientations loop.source loop.target .both) ∧
      (filter.accepts? edge = .ok true ∧
        (⟨0⟩, ⟨1⟩) ∈ orientations edge.source edge.target .incoming) := by
  intro filter loop edge
  have live_loop : looped.edge? ⟨0⟩ = some loop := by decide +kernel
  have live_edge : looped.edge? ⟨1⟩ = some edge := by decide +kernel
  have both : looped.store.expand? ⟨0⟩ .both filter = .ok [(⟨0⟩, ⟨0⟩), (⟨1⟩, ⟨1⟩)] := by
    decide +kernel
  have forth : looped.store.expand? ⟨0⟩ .incoming filter = .ok [(⟨0⟩, ⟨0⟩), (⟨1⟩, ⟨1⟩)] := by
    decide +kernel
  have back : looped.store.expand? ⟨1⟩ .outgoing filter = .ok [(⟨1⟩, ⟨0⟩)] := by
    decide +kernel
  obtain ⟨-, loop_read, -⟩ := readings_agree reachable_looped live_loop both both
  obtain ⟨-, edge_read, -⟩ := readings_agree reachable_looped live_edge forth back
  exact ⟨reachable_looped, live_loop, live_edge, both, forth, back,
    loop_read.mp (List.mem_cons_self ..), edge_read.mp (by simp)⟩

end Graph

end PropertyGraph
