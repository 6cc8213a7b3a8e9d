import PropertyGraph.Proofs.Match.Exactness
import PropertyGraph.Proofs.Match.Scoping

namespace PropertyGraph

namespace PathPattern

def HoldsMembers (p : PathPattern) (symbols : Symbols) (path : List BoundValue) : Prop :=
  ∀ entry ∈ p.entries path, ∀ symbol, symbols[entry.1]? = some symbol →
    symbol.contains entry.2 = true

def HoldsAlike (p : PathPattern) (symbols : Symbols) (path : List BoundValue) : Prop :=
  ∀ a ∈ p.entries path, ∀ b ∈ p.entries path, a.1 = b.1 → a.1 ∈ symbols → a.2 = b.2

def Repeats (p : PathPattern) (n : String) : Prop :=
  ∃ i j, i ≠ j ∧ (p.element? i).bind Element.name = some n ∧
    (p.element? j).bind Element.name = some n

variable {g : Graph} {p : PathPattern} {symbols : Symbols} {path : List BoundValue}

theorem agrees_symbols : Scope.Agrees ⟨symbols, ∅⟩ (p.entries path) ↔
    p.HoldsMembers symbols path ∧ ∀ a ∈ p.entries path, ∀ b ∈ p.entries path,
      a.1 = b.1 → a.1 ∉ symbols → a.2 = b.2 := by
  simp only [Scope.Agrees, Scope.fixes_symbols]
  rfl

theorem agrees_free : Scope.Agrees ⟨∅, ∅⟩ (p.entries path) ↔
    ∀ a ∈ p.entries path, ∀ b ∈ p.entries path, a.1 = b.1 → a.2 = b.2 := by
  rw [agrees_symbols]
  constructor
  · exact fun agrees a mem_a b mem_b eq => agrees.2 a mem_a b mem_b eq (by simp)
  · exact fun same => ⟨fun entry _ symbol at_name => by simp at at_name,
      fun a mem_a b mem_b eq _ => same a mem_a b mem_b eq⟩

theorem agrees_free_iff :
    Scope.Agrees ⟨∅, ∅⟩ (p.entries path) ∧ p.HoldsMembers symbols path ↔
      Scope.Agrees ⟨symbols, ∅⟩ (p.entries path) ∧ p.HoldsAlike symbols path := by
  rw [agrees_free, agrees_symbols]
  constructor
  · rintro ⟨same, members⟩
    exact ⟨⟨members, fun a mem_a b mem_b eq _ => same a mem_a b mem_b eq⟩,
      fun a mem_a b mem_b eq _ => same a mem_a b mem_b eq⟩
  · rintro ⟨⟨members, free⟩, alike⟩
    refine ⟨fun a mem_a b mem_b eq => ?_, members⟩
    by_cases symbol : a.1 ∈ symbols
    · exact alike a mem_a b mem_b eq symbol
    · exact free a mem_a b mem_b eq symbol

theorem holdsAlike_of_repeats
    (single : ∀ n symbol, p.Repeats n → symbols[n]? = some symbol →
      ∀ v w, symbol.contains v = true → symbol.contains w = true → v = w)
    (members : p.HoldsMembers symbols path) : p.HoldsAlike symbols path := by
  rintro ⟨n, v⟩ mem_v ⟨m, w⟩ mem_w rfl known
  have at_name : symbols[n]? = some symbols[n] := Std.ExtTreeMap.getElem?_eq_some_getElem known
  obtain ⟨i, at_i, element_i, named_i, value_i⟩ := mem_entries.mp mem_v
  obtain ⟨j, at_j, element_j, named_j, value_j⟩ := mem_entries.mp mem_w
  by_cases same : i = j
  · cases same
    exact Option.some.inj (value_i.symm.trans value_j)
  · have repeats : p.Repeats n := by
      refine ⟨i, j, same, ?_, ?_⟩
      · rw [element?_eq, element_i]
        exact named_i
      · rw [element?_eq, element_j]
        exact named_j
    exact single n _ repeats at_name v w (members _ mem_v _ at_name) (members _ mem_w _ at_name)

theorem mem_paths {rows : List Row}
    (exact_rows : ∀ row, row ∈ rows ↔ p.Matches g ⟨symbols, ∅⟩ row) :
    path ∈ rows.map Row.path ↔ p.Fits g path ∧ Scope.Agrees ⟨symbols, ∅⟩ (p.entries path) := by
  rw [← matches_rowAt, ← exact_rows, List.mem_map]
  constructor
  · rintro ⟨row, mem, rfl⟩
    exact ((exact_rows row).mp mem).eq_rowAt ▸ mem
  · exact fun mem => ⟨_, mem, rfl⟩

theorem nodup_paths {rows : List Row} (distinct : rows.Nodup)
    (exact_rows : ∀ row, row ∈ rows ↔ p.Matches g ⟨symbols, ∅⟩ row) :
    (rows.map Row.path).Nodup :=
  distinct.map_on fun a mem_a b mem_b same =>
    ((exact_rows a).mp mem_a).ext ((exact_rows b).mp mem_b) same

theorem run_paths_of_symbols {σ : Type} (reachable : g.Reachable) (p : PathPattern)
    (symbols : Symbols) (collector : Collector σ)
    (goes_on : ∀ row s, (collector row s).2 = .next) (state : σ)
    (ok : (p.run g symbols .none collector state).2 = .ok ())
    (free_ok : (p.run g ∅ .none collector state).2 = .ok ()) :
    ∃ rows free_rows : List Row,
      (rows.map Row.path).Nodup ∧ (free_rows.map Row.path).Nodup ∧
      (p.run g symbols .none collector state).1 =
        rows.foldl (fun s row => (collector row s).1) state ∧
      (p.run g ∅ .none collector state).1 =
        free_rows.foldl (fun s row => (collector row s).1) state ∧
      (∀ path ∈ rows.map Row.path, p.HoldsMembers symbols path) ∧
      (∀ path, path ∈ free_rows.map Row.path ∧ p.HoldsMembers symbols path ↔
        path ∈ rows.map Row.path ∧ p.HoldsAlike symbols path) ∧
      ((∀ n symbol, p.Repeats n → symbols[n]? = some symbol →
          ∀ v w, symbol.contains v = true → symbol.contains w = true → v = w) →
        ∀ path, path ∈ rows.map Row.path ↔
          path ∈ free_rows.map Row.path ∧ p.HoldsMembers symbols path) := by
  obtain ⟨rows, distinct, exact_rows, kept⟩ := run_rows reachable.sound goes_on ok
  obtain ⟨free_rows, free_distinct, exact_free, free_kept⟩ :=
    run_rows reachable.sound goes_on free_ok
  have members (path : List BoundValue) (mem : path ∈ rows.map Row.path) :
      p.HoldsMembers symbols path :=
    (agrees_symbols.mp ((mem_paths exact_rows).mp mem).2).1
  have alike (path : List BoundValue) :
      path ∈ free_rows.map Row.path ∧ p.HoldsMembers symbols path ↔
        path ∈ rows.map Row.path ∧ p.HoldsAlike symbols path := by
    rw [mem_paths exact_rows, mem_paths exact_free, and_assoc, and_assoc, agrees_free_iff]
  refine ⟨rows, free_rows, nodup_paths distinct exact_rows, nodup_paths free_distinct exact_free,
    kept, free_kept, members, alike, fun single path => ?_⟩
  rw [alike]
  exact ⟨fun mem => ⟨mem, holdsAlike_of_repeats single (members path mem)⟩, And.left⟩

def sameEnds : PathPattern := (ofNode (.named .any "x")).step (.any .outgoing) (.named .any "x")

def loops : Graph :=
  [.newEdge ⟨0⟩ ⟨0⟩ ⟨"T"⟩ ∅, .newEdge ⟨1⟩ ⟨1⟩ ⟨"T"⟩ ∅].foldl Graph.apply .pair

theorem reachable_loops : loops.Reachable := Graph.reachable_pair.foldl _

def firstNode : Symbols := (∅ : Symbols).insert "x" (.ofNodes [⟨0⟩])

theorem eq_of_mem_firstNode {n : String} {symbol : PatternSymbol} {v : BoundValue}
    (at_name : firstNode[n]? = some symbol) (mem : symbol.contains v = true) : v = .node ⟨0⟩ := by
  rw [firstNode, Std.ExtTreeMap.getElem?_insert] at at_name
  split at at_name
  · cases at_name
    cases v with
    | node id =>
        have listed := InsertionSet.contains_iff_mem.mp mem
        rw [InsertionSet.toList_ofList (List.nodup_singleton _), List.mem_singleton] at listed
        rw [listed]
    | edges ids => cases mem
  · simp at at_name

theorem run_paths_of_symbols_loops :
    loops.Reachable ∧ (∀ row s, (Collector.rows row s).2 = .next) ∧
      (sameEnds.run loops firstNode .none Collector.rows []).2 = .ok () ∧
      (sameEnds.run loops ∅ .none Collector.rows []).2 = .ok () ∧
      (sameEnds.run loops firstNode .none Collector.rows []).1.map Row.path =
        [[.node ⟨0⟩, .edges [⟨1⟩], .node ⟨0⟩]] ∧
      (sameEnds.run loops ∅ .none Collector.rows []).1.map Row.path =
        [[.node ⟨0⟩, .edges [⟨1⟩], .node ⟨0⟩], [.node ⟨1⟩, .edges [⟨2⟩], .node ⟨1⟩]] ∧
      ∃ rows free_rows : List Row,
        (rows.map Row.path).Nodup ∧ (free_rows.map Row.path).Nodup ∧
        (sameEnds.run loops firstNode .none Collector.rows []).1 =
          rows.foldl (fun s row => (Collector.rows row s).1) [] ∧
        (sameEnds.run loops ∅ .none Collector.rows []).1 =
          free_rows.foldl (fun s row => (Collector.rows row s).1) [] ∧
        (∀ path ∈ rows.map Row.path, sameEnds.HoldsMembers firstNode path) ∧
        (∀ path, path ∈ free_rows.map Row.path ∧ sameEnds.HoldsMembers firstNode path ↔
          path ∈ rows.map Row.path ∧ sameEnds.HoldsAlike firstNode path) ∧
        ∀ path, path ∈ rows.map Row.path ↔
          path ∈ free_rows.map Row.path ∧ sameEnds.HoldsMembers firstNode path := by
  have ok : (sameEnds.run loops firstNode .none Collector.rows []).2 = .ok () := by decide +kernel
  have free_ok : (sameEnds.run loops ∅ .none Collector.rows []).2 = .ok () := by decide +kernel
  obtain ⟨rows, free_rows, distinct, free_distinct, kept, free_kept, members, alike, restricted⟩ :=
    run_paths_of_symbols reachable_loops sameEnds firstNode Collector.rows (fun _ _ => rfl) [] ok
      free_ok
  exact ⟨reachable_loops, fun _ _ => rfl, ok, free_ok, by decide +kernel, by decide +kernel, rows,
    free_rows, distinct, free_distinct, kept, free_kept, members, alike,
    restricted fun n symbol _ at_name v w mem_v mem_w =>
      (eq_of_mem_firstNode at_name mem_v).trans (eq_of_mem_firstNode at_name mem_w).symm⟩

def eitherNode : Symbols := (∅ : Symbols).insert "x" (.ofNodes [⟨0⟩, ⟨1⟩])

/-- A symbol with two members lets the ends of an edge differ where a name of the run would not. -/
theorem not_run_symbols_restrict :
    ¬∀ (g : Graph) (p : PathPattern) (symbols : Symbols), g.Reachable →
      (p.run g symbols .none Collector.rows []).2 = .ok () →
      (p.run g ∅ .none Collector.rows []).2 = .ok () →
      ∀ path, path ∈ (p.run g symbols .none Collector.rows []).1.map Row.path ↔
          path ∈ (p.run g ∅ .none Collector.rows []).1.map Row.path ∧
            p.HoldsMembers symbols path := by
  intro restricts
  have at_ends := restricts .pair sameEnds eitherNode Graph.reachable_pair (by decide) (by decide)
    [.node ⟨0⟩, .edges [⟨0⟩], .node ⟨1⟩]
  have free := (at_ends.mp (by decide)).1
  have none_free : (sameEnds.run .pair ∅ .none Collector.rows []).1 = [] := by decide
  rw [none_free] at free
  cases free

end PathPattern

end PropertyGraph
