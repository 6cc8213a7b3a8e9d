import PropertyGraph.Proofs.Graph.Evolution
import PropertyGraph.Proofs.Store.Incidence
import Mathlib.Logic.Relation

namespace PropertyGraph

namespace Store

variable {s t : Store}

theorem Sound.evolves (h : s.Sound) (step : s.Evolves t) : t.Sound := by
  cases step with
  | same => exact h
  | change change => exact h.apply change
  | node found labels properties => exact h.setNode (hasNode_of_node? found) (h.nodeId found :)
  | edge found properties => exact h.setEdge found (h.edgeId found :) rfl rfl rfl

def Evolved (s : Store) : Prop := Relation.ReflTransGen Evolves ∅ s

theorem Reachable.evolved (reachable : s.Reachable) : s.Evolved := by
  induction reachable with
  | empty => exact .refl
  | step change _ ih => exact .tail ih (.change change)

theorem Evolved.sound (evolved : s.Evolved) : s.Sound := by
  induction evolved with
  | refl => exact sound_empty
  | tail _ step ih => exact ih.evolves step

theorem Evolved.counted (evolved : s.Evolved) : s.Counted := by
  induction evolved with
  | refl => exact counted_empty
  | tail _ step ih => exact ih.evolves step

theorem removals_take_incident (evolved : s.Evolved) {id : NodeId} {node : Node}
    (live : s.node? id = some node) :
    (∃ after edges, s.detachNode id = (after, .ok edges) ∧ s.Detached id edges after ∧
      (∀ other, after.node? other = s.node? other) ∧ after.nodeCount = s.nodeCount) ∧
    ∃ after edges, s.removeNode id = (after, .ok (node, edges)) ∧ s.Detached id edges after ∧
      (∀ other, after.node? other = if other = id then none else s.node? other) ∧
      after.nodeCount + 1 = s.nodeCount :=
  ⟨evolved.sound.detaches evolved.counted (hasNode_of_node? live),
    evolved.sound.removes evolved.counted live⟩

def parallel : Store :=
  [.addNode ∅ ∅, .addNode ∅ ∅, .addEdge ⟨0⟩ ⟨1⟩ ⟨"T"⟩ ∅, .addEdge ⟨0⟩ ⟨0⟩ ⟨"T"⟩ ∅,
    .addEdge ⟨1⟩ ⟨0⟩ ⟨"U"⟩ ∅, .addEdge ⟨1⟩ ⟨1⟩ ⟨"T"⟩ ∅, .addEdge ⟨0⟩ ⟨1⟩ ⟨"T"⟩ ∅].foldl apply ∅

example : (parallel.detachNode ⟨0⟩).2.toOption.map (List.map Edge.id) =
    some [⟨0⟩, ⟨1⟩, ⟨4⟩, ⟨2⟩] := rfl

theorem removals_take_incident_parallel :
    parallel.Evolved ∧ parallel.node? ⟨0⟩ = some ⟨⟨0⟩, ∅, ∅⟩ ∧
      (∃ after edges, parallel.detachNode ⟨0⟩ = (after, .ok edges) ∧
        parallel.Detached ⟨0⟩ edges after ∧
        (∀ other, after.node? other = parallel.node? other) ∧
        after.nodeCount = parallel.nodeCount) ∧
      ∃ after edges, parallel.removeNode ⟨0⟩ = (after, .ok (⟨⟨0⟩, ∅, ∅⟩, edges)) ∧
        parallel.Detached ⟨0⟩ edges after ∧
        (∀ other, after.node? other = if other = ⟨0⟩ then none else parallel.node? other) ∧
        after.nodeCount + 1 = parallel.nodeCount := by
  have evolved : parallel.Evolved := (Reachable.empty.foldl _).evolved
  have live : parallel.node? ⟨0⟩ = some ⟨⟨0⟩, ∅, ∅⟩ := rfl
  exact ⟨evolved, live, removals_take_incident evolved live⟩

end Store

theorem Graph.Reachable.evolved {g : Graph} (reachable : g.Reachable) : g.store.Evolved := by
  induction reachable with
  | empty => exact .refl
  | step change _ ih => exact .tail ih (apply_evolves _ change)

end PropertyGraph
