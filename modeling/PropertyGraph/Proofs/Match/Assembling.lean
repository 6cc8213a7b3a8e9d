import PropertyGraph.Proofs.Match.Rows

/-!
Clauses that build up one row in place. A part binds no name that the row has already, so what it
adds stands behind everything else and is cut off without a trace; a clause run is therefore the same
as one that hands each part a row of its own.
-/

namespace PropertyGraph

theorem Row.truncate_join {row found : Row}
    (apart : ∀ n ∈ found.bindings.keys, n ∉ row.bindings.keys) :
    (row.join found).truncate row.path.length row.bindings.size = row := by
  rw [join, truncate, List.take_left, InsertionMap.take_union apart]

namespace Clause

variable {σ : Type} {g : Graph} {symbols : Symbols} {collector : Collector σ}

def search (g : Graph) (symbols : Symbols) (collector : Collector σ) :
    List PathPattern → Row → Visit σ
  | [], row => collector row
  | part :: rest, row =>
      part.search g ⟨symbols, row.bindings⟩ .none fun found =>
        search g symbols collector rest (row.join found)

theorem not_mem_of_mem_rows {part : PathPattern} {row found : Row}
    (mem : .ok found ∈ part.rows g ⟨symbols, row.bindings⟩ none) :
    ∀ n ∈ found.bindings.keys, n ∉ row.bindings.keys := by
  intro n bound_name there
  have pinned : row.bindings.contains n = true := InsertionMap.contains_iff.mpr there
  exact PathPattern.not_fixes_of_mem_rows mem bound_name (.inl pinned)

theorem runFrom_eq (parts : List PathPattern) (row : Row) (s : σ) :
    runFrom g symbols collector parts ⟨row, s⟩ =
      (⟨row, (search g symbols collector parts row s).1⟩,
        (search g symbols collector parts row s).2) := by
  induction parts generalizing row s with
  | nil => rfl
  | cons part rest ih =>
      rw [runFrom, search, MatchOptions.none, PathPattern.search_eq, PathPattern.search_eq]
      refine visitEach_framed (Assembly.mk row) ?_ s
      intro found mem s
      simp only [ih, Row.truncate_join (not_mem_of_mem_rows mem)]

theorem run_eq (clause : Clause) (options : MatchOptions) (s : σ) :
    clause.run g symbols options collector s =
      if clause.parts.isEmpty then (s, .error (.invalidPattern .noParts))
      else if options.limit = some 0 then (s, .ok ())
      else
        let ended := search g symbols (collector.limited options.limit) clause.parts .empty (0, s)
        (ended.1.2, ended.2.result) := by
  rw [run, runFrom_eq]

end Clause

end PropertyGraph
