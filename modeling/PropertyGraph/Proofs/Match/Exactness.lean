import PropertyGraph.Proofs.Graph.Reachable
import PropertyGraph.Proofs.Match.Rows

namespace PropertyGraph

namespace PathPattern

variable {σ : Type} {g : Graph} {p : PathPattern}

theorem run_eq (symbols : Symbols) (pivot : Option Nat) (collector : Collector σ) (state : σ) :
    p.run g symbols ⟨pivot, none⟩ collector state =
      ((visitEach collector (p.rows g ⟨symbols, ∅⟩ pivot) state).1,
        (visitEach collector (p.rows g ⟨symbols, ∅⟩ pivot) state).2.result) := by
  rw [run, search_eq]

theorem run_rows (h : g.Sound) {symbols : Symbols} {pivot : Option Nat} {collector : Collector σ}
    (goes_on : ∀ row s, (collector row s).2 = .next) {state : σ}
    (ok : (p.run g symbols ⟨pivot, none⟩ collector state).2 = .ok ()) :
    ∃ rows : List Row, rows.Nodup ∧ (∀ row, row ∈ rows ↔ p.Matches g ⟨symbols, ∅⟩ row) ∧
      (p.run g symbols ⟨pivot, none⟩ collector state).1 =
        rows.foldl (fun s row => (collector row s).1) state := by
  rw [run_eq] at ok ⊢
  have clean : (p.rows g ⟨symbols, ∅⟩ pivot).Clean := by
    refine clean_of_visitEach goes_on (s := state) fun e failed => ?_
    rw [failed] at ok
    cases ok
  refine ⟨(p.rows g ⟨symbols, ∅⟩ pivot).found, Findings.nodup_found (nodup_rows h clean),
    fun row => ?_, ?_⟩
  · rw [Findings.mem_found, mem_rows h clean]
  · rw [visitEach_next goes_on clean]

def hop : PathPattern := (ofNode (.named .any "x")).step (.any .both) (.named .any "y")

theorem run_stores_matches (reachable : g.Reachable) (p : PathPattern) (symbols : Symbols)
    (collector : Collector σ) (goes_on : ∀ row s, (collector row s).2 = .next) (state : σ)
    (ok : (p.run g symbols .none collector state).2 = .ok ()) :
    ∃ rows : List Row, rows.Nodup ∧ (∀ row, row ∈ rows ↔ p.Matches g ⟨symbols, ∅⟩ row) ∧
      (p.run g symbols .none collector state).1 =
        rows.foldl (fun s row => (collector row s).1) state :=
  run_rows reachable.sound goes_on ok

theorem run_stores_matches_pair :
    Graph.pair.Reachable ∧ (∀ row s, (Collector.rows row s).2 = .next) ∧
      (hop.run .pair ∅ .none Collector.rows []).2 = .ok () ∧
      (hop.run .pair ∅ .none Collector.rows []).1 =
        [⟨[.node ⟨0⟩, .edges [⟨0⟩], .node ⟨1⟩], .ofList [("x", .node ⟨0⟩), ("y", .node ⟨1⟩)]⟩,
          ⟨[.node ⟨1⟩, .edges [⟨0⟩], .node ⟨0⟩], .ofList [("x", .node ⟨1⟩), ("y", .node ⟨0⟩)]⟩] ∧
      ∃ rows : List Row, rows.Nodup ∧ (∀ row, row ∈ rows ↔ hop.Matches .pair ⟨∅, ∅⟩ row) ∧
        (hop.run .pair ∅ .none Collector.rows []).1 =
          rows.foldl (fun s row => (Collector.rows row s).1) [] :=
  ⟨Graph.reachable_pair, fun _ _ => rfl, by decide, by decide,
    run_stores_matches Graph.reachable_pair hop ∅ Collector.rows (fun _ _ => rfl) [] (by decide)⟩

theorem run_pivot_perm (reachable : g.Reachable) (p : PathPattern) (symbols : Symbols)
    (pivot other : Option Nat) (collector : Collector σ)
    (goes_on : ∀ row s, (collector row s).2 = .next) (state : σ)
    (ok : (p.run g symbols ⟨pivot, none⟩ collector state).2 = .ok ())
    (other_ok : (p.run g symbols ⟨other, none⟩ collector state).2 = .ok ()) :
    ∃ rows other_rows : List Row, rows.Perm other_rows ∧
      (p.run g symbols ⟨pivot, none⟩ collector state).1 =
        rows.foldl (fun s row => (collector row s).1) state ∧
      (p.run g symbols ⟨other, none⟩ collector state).1 =
        other_rows.foldl (fun s row => (collector row s).1) state := by
  obtain ⟨rows, distinct, exact_rows, kept⟩ := run_rows reachable.sound goes_on ok
  obtain ⟨other_rows, other_distinct, exact_others, other_kept⟩ :=
    run_rows reachable.sound goes_on other_ok
  refine ⟨rows, other_rows, ?_, kept, other_kept⟩
  refine (List.perm_ext_iff_of_nodup distinct other_distinct).mpr fun row => ?_
  rw [exact_rows, exact_others]

theorem run_pivot_perm_pair :
    Graph.pair.Reachable ∧ (∀ row s, (Collector.rows row s).2 = .next) ∧
      (hop.run .pair ∅ ⟨none, none⟩ Collector.rows []).2 = .ok () ∧
      (hop.run .pair ∅ ⟨some 2, none⟩ Collector.rows []).2 = .ok () ∧
      (hop.run .pair ∅ ⟨none, none⟩ Collector.rows []).1.map Row.path =
        [[.node ⟨0⟩, .edges [⟨0⟩], .node ⟨1⟩], [.node ⟨1⟩, .edges [⟨0⟩], .node ⟨0⟩]] ∧
      (hop.run .pair ∅ ⟨some 2, none⟩ Collector.rows []).1.map Row.path =
        [[.node ⟨1⟩, .edges [⟨0⟩], .node ⟨0⟩], [.node ⟨0⟩, .edges [⟨0⟩], .node ⟨1⟩]] ∧
      ∃ rows other_rows : List Row, rows.Perm other_rows ∧
        (hop.run .pair ∅ ⟨none, none⟩ Collector.rows []).1 =
          rows.foldl (fun s row => (Collector.rows row s).1) [] ∧
        (hop.run .pair ∅ ⟨some 2, none⟩ Collector.rows []).1 =
          other_rows.foldl (fun s row => (Collector.rows row s).1) [] :=
  ⟨Graph.reachable_pair, fun _ _ => rfl, by decide, by decide, by decide, by decide,
    run_pivot_perm Graph.reachable_pair hop ∅ none (some 2) Collector.rows (fun _ _ => rfl) []
      (by decide) (by decide)⟩

end PathPattern

end PropertyGraph
