import PropertyGraph.Match.Run
import PropertyGraph.Proofs.Graph.Return

/-!
Runs look at a graph through its store and the candidates for filters. On graphs that have both the
same, they are the same runs: one plan, and the same rows in the same order.
-/

namespace PropertyGraph

variable {σ : Type} {g other : Graph}

namespace Operator

theorem run_of_sameCandidates (h : g.SameCandidates other) (scope : Scope) (operator : Operator) :
    run (σ := σ) g scope operator = run other scope operator := by
  funext next progress
  cases operator with
  | nodeScan position node =>
      simp only [run, runNodeScan, h.selectNodes?, Graph.siftNodes_of_store h.store]
  | edgeScan position edge =>
      have visits : visitEdge g scope position edge next = visitEdge other scope position edge next := by
        funext id progress
        rw [visitEdge, visitEdge, Graph.edge?, Graph.edge?, h.store]
      simp only [run, runEdgeScan, h.selectEdges?, Graph.siftEdges_of_store h.store, visits]
  | expandEdge position anchor forward edge => simp only [run, runExpandEdge, h.store]
  | edgeEndpoint position anchor forward node =>
      simp only [run, runEdgeEndpoint, Graph.siftNodes_of_store h.store]
  | varLengthExpand position anchor forward edge =>
      have visits : visitPaths g scope position forward edge next =
          visitPaths other scope position forward edge next := by
        funext start
        rw [visitPaths, visitPaths, h.store]
      simp only [run, runVarLengthExpand, h.store, visits]

end Operator

theorem Plan.execute_of_sameCandidates (h : g.SameCandidates other) (scope : Scope) (plan : Plan)
    (sink : Visit (Progress σ)) : plan.execute g scope sink = plan.execute other scope sink := by
  rw [execute, execute]
  simp only [Operator.run_of_sameCandidates h]

namespace PathPattern

theorem fastestAmong?_of_sameCandidates (h : g.SameCandidates other) (p : PathPattern) (scope : Scope)
    (best : Option (Nat × Nat)) (positions : List Nat) :
    p.fastestAmong? g scope best positions = p.fastestAmong? other scope best positions := by
  have estimates : ∀ position, p.estimate? position g scope = p.estimate? position other scope := by
    intro position
    rw [estimate?, estimate?]
    cases p.elementAt? position with
    | error e => rfl
    | ok element =>
        cases element <;> simp only [Element.estimate?, h.estimateNodes?, h.estimateEdges?]
  induction positions generalizing best with
  | nil => rfl
  | cons position rest ih => simp only [fastestAmong?, estimates, ih]

theorem plan?_of_sameCandidates (h : g.SameCandidates other) (p : PathPattern) (scope : Scope)
    (pivot : Option Nat) : p.plan? g scope pivot = p.plan? other scope pivot := by
  cases pivot with
  | some pivot => rfl
  | none => simp only [plan?, fastestPosition?, fastestAmong?_of_sameCandidates h]

theorem search_of_sameCandidates (h : g.SameCandidates other) (p : PathPattern) :
    p.search (σ := σ) g = p.search other := by
  funext scope options collector state
  simp only [search, plan?_of_sameCandidates h, Plan.execute_of_sameCandidates h]

theorem run_of_sameCandidates (h : g.SameCandidates other) (p : PathPattern) :
    p.run (σ := σ) g = p.run other := by
  funext symbols options collector state
  rw [run, run, search_of_sameCandidates h]

end PathPattern

namespace Clause

theorem runFrom_of_sameCandidates (h : g.SameCandidates other) (symbols : Symbols)
    (collector : Collector σ) (parts : List PathPattern) :
    runFrom g symbols collector parts = runFrom other symbols collector parts := by
  induction parts with
  | nil => rfl
  | cons part rest ih =>
      funext assembly
      simp only [runFrom, PathPattern.search_of_sameCandidates h, ih]

theorem run_of_sameCandidates (h : g.SameCandidates other) (clause : Clause) :
    clause.run (σ := σ) g = clause.run other := by
  funext symbols options collector state
  simp only [run, runFrom_of_sameCandidates h]

end Clause

end PropertyGraph
