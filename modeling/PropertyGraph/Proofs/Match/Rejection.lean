import PropertyGraph.Proofs.Match.Faults

/-!
What a run refuses. A clause looks at a part when it comes to it, with the kinds of the symbols and of
what the rows so far have bound; so an ill-formed clause hands over nothing, and it fails unless the
parts before the first ill-formed one have no row that leads there.
-/

namespace PropertyGraph

section Binding

variable {g : Graph} {scope : Scope} {symbols : Symbols} {elements : List Element}

/-- The bindings are those of the elements: each value has the kind of an element of its name, and
no name is left without a value but those that the scope fixes. -/
structure Scope.Binds (scope : Scope) (elements : List Element) (bindings : Bindings) : Prop where
  typed : ∀ n v, bindings.get? n = some v →
    ∃ element ∈ elements, element.name = some n ∧ v.kind = element.kind
  named : ∀ element ∈ elements, ∀ n, element.name = some n → scope.Fixes n ∨ n ∈ bindings.keys

theorem Scope.binds_empty (scope : Scope) : scope.Binds [] ∅ where
  typed := by
    intro n v held
    cases held
  named := by simp

theorem Scope.Binds.fill {ctx filled : Context} (binds : scope.Binds elements ctx.bindings)
    {position : Nat} {element : Element} {slot : Slot} (kind : slot.kind = element.kind)
    (mem : .ok filled ∈ ctx.fill scope position element.name slot) :
    scope.Binds (elements ++ [element]) filled.bindings := by
  have after := (Context.of_mem_fill mem).2
  refine ⟨?_, List.forall_mem_append.mpr ⟨?_, List.forall_mem_singleton.mpr ?_⟩⟩
  · intro n v held
    rcases (after n v).mp held with held | ⟨named, -, rfl⟩
    · obtain ⟨other, listed, there⟩ := binds.typed n v held
      exact ⟨other, List.mem_append_left _ listed, there⟩
    · exact ⟨element, List.mem_append_right _ (List.mem_singleton_self _), named,
        slot.kind_value.trans kind⟩
  · intro other listed n named
    refine (binds.named other listed n named).imp_right ?_
    intro key
    obtain ⟨v, held⟩ := InsertionMap.mem_keys.mp key
    exact InsertionMap.mem_keys.mpr ⟨v, (after n v).mpr (.inl held)⟩
  · intro n named
    refine or_iff_not_imp_left.mpr ?_
    intro free
    exact InsertionMap.mem_keys.mpr ⟨slot.value, (after n _).mpr (.inr ⟨named, free, rfl⟩)⟩

theorem Scope.Binds.of_mem_contexts {tasks : List Task} {ctx final : Context}
    (binds : scope.Binds elements ctx.bindings)
    (mem : .ok final ∈ contexts g scope (tasks.map Task.operator) ctx) :
    scope.Binds (elements ++ tasks.map Task.element) final.bindings := by
  induction tasks generalizing ctx elements with
  | nil =>
      cases List.mem_singleton.mp mem
      rwa [List.map_nil, List.append_nil]
  | cons task rest ih =>
      rw [contexts_cons] at mem
      obtain ⟨slot, found, mem⟩ := Findings.ok_mem_andThen.mp mem
      obtain ⟨filled, filled_mem, mem⟩ := Findings.ok_mem_andThen.mp mem
      have later := ih (binds.fill (Task.suits_of_mem_slots found).kind filled_mem) mem
      rwa [List.append_assoc] at later

theorem PathPattern.binds_of_mem_rows {p : PathPattern} {pivot : Option Nat} {row : Row}
    (mem : .ok row ∈ p.rows g scope pivot) : scope.Binds p.elements row.bindings := by
  obtain ⟨start, tasks, final, bound, covers, there, rfl⟩ := exists_context_of_mem_rows mem
  have nothing : scope.Binds [] (Context.empty p.length).bindings := scope.binds_empty
  have binds := nothing.of_mem_contexts there
  constructor
  · intro n v held
    obtain ⟨element, mem, named, kind⟩ := binds.typed n v (final.get?_rowBindings.mp held).2
    obtain ⟨task, listed, rfl⟩ := List.mem_map.mp mem
    exact ⟨task.element, List.mem_of_getElem? (covers.element task listed), named, kind⟩
  · intro element mem n named
    obtain ⟨i, at_i⟩ := List.mem_iff_getElem?.mp mem
    obtain ⟨task, listed, -, rfl⟩ := covers.exists_task bound at_i
    refine (binds.named task.element (List.mem_map_of_mem listed) n named).imp_right ?_
    intro key
    obtain ⟨v, held⟩ := InsertionMap.mem_keys.mp key
    have listed_name : n ∈ p.names := by
      rw [names, List.mem_eraseDups]
      exact List.mem_filterMap.mpr ⟨task.element, mem, named⟩
    exact InsertionMap.mem_keys.mpr ⟨v, final.get?_rowBindings.mpr ⟨listed_name, held⟩⟩

theorem Scope.Binds.join {more : List Element} {row found : Row}
    (first : Scope.Binds ⟨symbols, ∅⟩ elements row.bindings)
    (second : Scope.Binds ⟨symbols, row.bindings⟩ more found.bindings) :
    Scope.Binds ⟨symbols, ∅⟩ (elements ++ more) (row.join found).bindings := by
  have joined {n : String} : n ∈ (row.join found).bindings.keys ↔
      n ∈ row.bindings.keys ∨ n ∈ found.bindings.keys := by
    rw [Row.join, InsertionMap.keys_union, List.mem_append, List.mem_filter, decide_eq_true_eq]
    tauto
  refine ⟨?_, List.forall_mem_append.mpr ⟨?_, ?_⟩⟩
  · intro n v held
    rw [Row.join, InsertionMap.get?_union, Option.or_eq_some_iff] at held
    rcases held with held | ⟨-, held⟩
    · obtain ⟨element, mem, there⟩ := second.typed n v held
      exact ⟨element, List.mem_append_right _ mem, there⟩
    · obtain ⟨element, mem, there⟩ := first.typed n v held
      exact ⟨element, List.mem_append_left _ mem, there⟩
  · intro element mem n named
    rw [joined]
    exact (first.named element mem n named).imp_right .inl
  · intro element mem n named
    rw [joined, Scope.fixes_symbols]
    rcases second.named element mem n named with fixed | key
    · exact (Scope.fixes_pinned.mp fixed).elim (fun key => .inr (.inl key)) .inl
    · exact .inr (.inr key)

end Binding

section Checks

variable {scope : Scope}

theorem Scope.checkKinds?_eq_ok {elements : List Element} :
    scope.checkKinds? elements = .ok () ↔ ∀ element ∈ elements, ∀ n, element.name = some n →
      ∀ kind, scope.kind? n = some kind → kind = element.kind := by
  constructor
  · intro ok element mem n named kind known
    exact kind_of_checkKinds? ok mem named known
  · intro kinds
    induction elements with
    | nil => rfl
    | cons element rest ih =>
        obtain ⟨here, later⟩ := List.forall_mem_cons.mp kinds
        rw [checkKinds?]
        split
        · exact ih later
        · rename_i name kind looked_up
          obtain ⟨n, named, known⟩ := Option.bind_eq_some_iff.mp looked_up
          obtain ⟨k, at_n, eq⟩ := Option.map_eq_some_iff.mp known
          cases eq
          rw [if_pos (here name named kind at_n)]
          exact ih later

theorem PathPattern.check?_eq_ok {p : PathPattern} :
    p.check? scope = .ok () ↔ p.validate = .ok () ∧ ∀ element ∈ p.elements, ∀ n,
      element.name = some n → ∀ kind, scope.kind? n = some kind → kind = element.kind := by
  rw [← Scope.checkKinds?_eq_ok, check?, validate]
  cases p.fault? with
  | none => exact (and_iff_right rfl).symm
  | some fault => exact iff_of_false (by simp) (by simp)

end Checks

namespace Clause

variable {g : Graph} {symbols : Symbols}

def elements (clause : Clause) : List Element := clause.parts.flatMap PathPattern.elements

/-- Every part is valid by itself, no name stands both for a node and for edges, and no symbol has
another kind than what carries its name. -/
structure WellFormed (clause : Clause) (symbols : Symbols) : Prop where
  valid : ∀ part ∈ clause.parts, part.validate = .ok ()
  oneKind : ∀ a ∈ clause.elements, ∀ b ∈ clause.elements, ∀ n, a.name = some n →
    b.name = some n → a.kind = b.kind
  symbolKind : ∀ element ∈ clause.elements, ∀ n, element.name = some n →
    ∀ symbol, symbols[n]? = some symbol → symbol.kind = element.kind

theorem elements_append (parts more : List PathPattern) :
    elements ⟨parts ++ more⟩ = elements ⟨parts⟩ ++ elements ⟨more⟩ := List.flatMap_append

theorem elements_singleton (part : PathPattern) : elements ⟨[part]⟩ = part.elements :=
  List.flatMap_singleton _ _

section Checking

variable {before : List PathPattern} {bindings : Bindings}

theorem WellFormed.kind?_of_mem (well : WellFormed ⟨before⟩ symbols)
    (binds : Scope.Binds ⟨symbols, ∅⟩ (elements ⟨before⟩) bindings) {element : Element}
    (mem : element ∈ elements ⟨before⟩) {n : String} (named : element.name = some n) :
    Scope.kind? ⟨symbols, bindings⟩ n = some element.kind := by
  rw [Scope.kind?]
  cases held : bindings.get? n with
  | some v =>
      obtain ⟨other, listed, other_named, kind⟩ := binds.typed n v held
      exact congrArg some (kind.trans (well.oneKind other listed element mem n other_named named))
  | none =>
      have unbound := InsertionMap.get?_eq_none.mp held
      have symbol_known : n ∈ symbols :=
        Scope.fixes_symbols.mp ((binds.named element mem n named).resolve_right unbound)
      obtain ⟨symbol, there⟩ :=
        Option.isSome_iff_exists.mp (Std.ExtTreeMap.mem_iff_isSome_getElem?.mp symbol_known)
      simp only [there, Option.map_some]
      exact congrArg some (well.symbolKind element mem n named symbol there)

theorem WellFormed.kind?_of_symbol (well : WellFormed ⟨before⟩ symbols)
    (binds : Scope.Binds ⟨symbols, ∅⟩ (elements ⟨before⟩) bindings) {n : String}
    {symbol : PatternSymbol} (there : symbols[n]? = some symbol) :
    Scope.kind? ⟨symbols, bindings⟩ n = some symbol.kind := by
  rw [Scope.kind?]
  cases held : bindings.get? n with
  | some v =>
      obtain ⟨element, mem, named, kind⟩ := binds.typed n v held
      exact congrArg some (kind.trans (well.symbolKind element mem n named symbol there).symm)
  | none => simp only [there, Option.map_some]

theorem WellFormed.concat (well : WellFormed ⟨before⟩ symbols)
    (binds : Scope.Binds ⟨symbols, ∅⟩ (elements ⟨before⟩) bindings) {part : PathPattern}
    (checked : part.check? ⟨symbols, bindings⟩ = .ok ()) :
    WellFormed ⟨before ++ [part]⟩ symbols := by
  obtain ⟨valid, known⟩ := PathPattern.check?_eq_ok.mp checked
  refine ⟨List.forall_mem_append.mpr ⟨well.valid, List.forall_mem_singleton.mpr valid⟩, ?_, ?_⟩
  · rw [elements_append, elements_singleton]
    intro a mem_a b mem_b n named_a named_b
    -- Across the two the name is known to the part's check, by its value or as a symbol.
    rcases List.mem_append.mp mem_a with mem_a | mem_a <;>
      rcases List.mem_append.mp mem_b with mem_b | mem_b
    · exact well.oneKind a mem_a b mem_b n named_a named_b
    · exact known b mem_b n named_b a.kind (well.kind?_of_mem binds mem_a named_a)
    · exact (known a mem_a n named_a b.kind (well.kind?_of_mem binds mem_b named_b)).symm
    · exact PathPattern.kind_eq_of_name valid mem_a mem_b named_a named_b
  · rw [elements_append, elements_singleton]
    intro element mem n named symbol there
    rcases List.mem_append.mp mem with mem | mem
    · exact well.symbolKind element mem n named symbol there
    · exact known element mem n named symbol.kind (well.kind?_of_symbol binds there)

end Checking

theorem exists_first_of_not_wellFormed {parts : List PathPattern}
    (ill : ¬WellFormed ⟨parts⟩ symbols) :
    ∃ before bad after, parts = before ++ bad :: after ∧ WellFormed ⟨before⟩ symbols ∧
      ¬WellFormed ⟨before ++ [bad]⟩ symbols := by
  induction parts using List.reverseRecOn with
  | nil => exact absurd ⟨by simp, by simp [elements], by simp [elements]⟩ ill
  | append_singleton parts part ih =>
      rcases Classical.em (WellFormed ⟨parts⟩ symbols) with well | earlier
      · exact ⟨parts, part, [], rfl, well, ill⟩
      · obtain ⟨before, bad, after, rfl, first⟩ := ih earlier
        exact ⟨before, bad, after ++ [part], by simp, first⟩

section Rows

variable {parts : List PathPattern} {row found : Row}

theorem rowsFrom_append (parts more : List PathPattern) (row : Row) :
    rowsFrom g symbols (parts ++ more) row =
      (rowsFrom g symbols parts row).andThen (rowsFrom g symbols more) := by
  induction parts generalizing row with
  | nil => exact (List.append_nil _).symm
  | cons part rest ih =>
      rw [List.cons_append, rowsFrom, rowsFrom, Findings.andThen_assoc]
      simp only [ih]

theorem binds_of_mem_rowsFrom {elements : List Element}
    (binds : Scope.Binds ⟨symbols, ∅⟩ elements row.bindings)
    (mem : .ok found ∈ rowsFrom g symbols parts row) :
    Scope.Binds ⟨symbols, ∅⟩ (elements ++ Clause.elements ⟨parts⟩) found.bindings := by
  induction parts generalizing row elements with
  | nil =>
      cases List.mem_singleton.mp mem
      rwa [Clause.elements, List.flatMap_nil, List.append_nil]
  | cons part rest ih =>
      obtain ⟨next, there, mem⟩ := Findings.ok_mem_andThen.mp mem
      have later := ih (binds.join (PathPattern.binds_of_mem_rows there)) mem
      rwa [List.append_assoc] at later

theorem rows_eq_nil_iff {clause : Clause} :
    clause.rows g symbols = [] ↔ rowsFrom g symbols clause.parts .empty = [] := by
  obtain ⟨parts⟩ := clause
  cases parts with
  | nil => simp [rows, rowsFrom]
  | cons part rest => simp [rows]

section First

variable {before after : List PathPattern} {bad : PathPattern}

theorem rowsFrom_bad (well : WellFormed ⟨before⟩ symbols)
    (ill : ¬WellFormed ⟨before ++ [bad]⟩ symbols)
    (mem : .ok row ∈ rowsFrom g symbols before .empty) :
    ∃ e, rowsFrom g symbols (bad :: after) row = [.error e] := by
  have binds := binds_of_mem_rowsFrom (Scope.binds_empty ⟨symbols, ∅⟩) mem
  rw [List.nil_append] at binds
  cases checked : bad.check? ⟨symbols, row.bindings⟩ with
  | error e => exact ⟨e, by rw [rowsFrom, PathPattern.rows, checked]; rfl⟩
  | ok => exact absurd (well.concat binds checked) ill

theorem no_row_of_bad (well : WellFormed ⟨before⟩ symbols)
    (ill : ¬WellFormed ⟨before ++ [bad]⟩ symbols) (row : Row) :
    .ok row ∉ rowsFrom g symbols (before ++ bad :: after) .empty := by
  rw [rowsFrom_append]
  intro mem
  obtain ⟨earlier, there, mem⟩ := Findings.ok_mem_andThen.mp mem
  obtain ⟨e, failed⟩ := rowsFrom_bad well ill there
  rw [failed] at mem
  cases List.mem_singleton.mp mem

theorem rowsFrom_eq_nil_iff (well : WellFormed ⟨before⟩ symbols)
    (ill : ¬WellFormed ⟨before ++ [bad]⟩ symbols) :
    rowsFrom g symbols (before ++ bad :: after) .empty = [] ↔
      rowsFrom g symbols before .empty = [] := by
  rw [rowsFrom_append]
  cases found : rowsFrom g symbols before .empty with
  | nil => exact ⟨fun _ => rfl, fun _ => rfl⟩
  | cons item rest =>
      cases item with
      | error e => exact iff_of_false (List.cons_ne_nil _ _) (List.cons_ne_nil _ _)
      | ok row =>
          obtain ⟨e, failed⟩ : ∃ e, rowsFrom g symbols (bad :: after) row = [.error e] :=
            rowsFrom_bad well ill (found ▸ List.mem_cons_self)
          rw [Findings.andThen, List.flatMap_cons]
          dsimp only
          rw [failed]
          exact iff_of_false (List.cons_ne_nil _ _) (List.cons_ne_nil _ _)

end First

end Rows

theorem run_of_not_wellFormed {σ : Type} (clause : Clause) (g : Graph) (symbols : Symbols)
    (ill : ¬clause.WellFormed symbols) (options : MatchOptions) (positive : options.limit ≠ some 0)
    (collector : Collector σ) (state : σ) :
    (clause.run g symbols options collector.traced ([], state)).1 = ([], state) ∧
      (clause.run g symbols options collector state).1 = state ∧
      ∃ before bad after, clause.parts = before ++ bad :: after ∧
        WellFormed ⟨before⟩ symbols ∧ ¬WellFormed ⟨before ++ [bad]⟩ symbols ∧
        ((clause.run g symbols options collector state).2 = .ok () ↔
          (⟨before⟩ : Clause).run g symbols .none .rows [] = ([], .ok ())) := by
  obtain ⟨before, bad, after, split, well, first⟩ := exists_first_of_not_wellFormed ill
  have rows_eq : clause.rows g symbols =
      rowsFrom g symbols (before ++ bad :: after) .empty := by
    rw [rows, split, if_neg (by simp)]
  have nothing : (clause.rows g symbols).leading = [] := by
    rw [rows_eq]
    exact Findings.leading_eq_nil (no_row_of_bad well first)
  have run_eq {τ : Type} (collector : Collector τ) (state : τ) :
      clause.run g symbols options collector state =
        (state, (clause.rows g symbols).ending.result) := by
    rw [run_eq_rows_run clause g symbols options positive,
      Findings.run_eq_of_leading nothing positive]
  have before_run : (⟨before⟩ : Clause).run g symbols .none .rows [] =
      (((⟨before⟩ : Clause).rows g symbols).leading,
        ((⟨before⟩ : Clause).rows g symbols).ending.result) := by
    rw [run_eq_rows_run _ g symbols .none (by simp [MatchOptions.none])]
    exact Findings.run_rows _
  refine ⟨by rw [run_eq], by rw [run_eq], before, bad, after, split, well, first, ?_⟩
  calc (clause.run g symbols options collector state).2 = .ok ()
      ↔ clause.rows g symbols = [] := by rw [run_eq, Findings.eq_nil_iff, and_iff_right nothing]
    _ ↔ (⟨before⟩ : Clause).rows g symbols = [] := by
        rw [rows_eq, rowsFrom_eq_nil_iff well first, rows_eq_nil_iff]
    _ ↔ (⟨before⟩ : Clause).run g symbols .none .rows [] = ([], .ok ()) := by
        rw [before_run, Prod.mk.injEq, Findings.eq_nil_iff]

def strayEdge : Clause :=
  ⟨[.ofNode (.named .any "x"), (PathPattern.ofNode .any).step (.named (.any .outgoing) "r") .any]⟩

def oneNode : Symbols := (∅ : Symbols).insert "r" (.ofNodes [⟨0⟩])

theorem not_wellFormed_strayEdge : ¬strayEdge.WellFormed oneNode := by
  intro well
  have same := well.symbolKind (.edge (.named (.any .outgoing) "r")) (by decide) "r" rfl
    (.ofNodes [⟨0⟩]) (by simp [oneNode])
  cases same

theorem run_of_not_wellFormed_strayEdge :
    ¬strayEdge.WellFormed oneNode ∧ none ≠ some 0 ∧
      strayEdge.run .pair oneNode .none Collector.rows [] =
        ([], .error (.kindMismatch "r" .edges .node)) ∧
      (strayEdge.run .pair oneNode .none Collector.rows.traced ([], [])).1 = ([], []) ∧
      (strayEdge.run .pair oneNode .none Collector.rows []).1 = [] ∧
      ∃ before bad after, strayEdge.parts = before ++ bad :: after ∧
        WellFormed ⟨before⟩ oneNode ∧ ¬WellFormed ⟨before ++ [bad]⟩ oneNode ∧
        ((strayEdge.run .pair oneNode .none Collector.rows []).2 = .ok () ↔
          (⟨before⟩ : Clause).run .pair oneNode .none .rows [] = ([], .ok ())) :=
  ⟨not_wellFormed_strayEdge, by simp, by decide,
    run_of_not_wellFormed strayEdge .pair oneNode not_wellFormed_strayEdge .none
      (by simp [MatchOptions.none]) Collector.rows []⟩

theorem not_run_refuses :
    ¬∀ (clause : Clause) (g : Graph) (symbols : Symbols) (options : MatchOptions),
      ¬clause.WellFormed symbols → options.limit ≠ some 0 →
        ∃ e, (clause.run g symbols options Collector.rows []).2 = .error e := by
  intro refuses
  obtain ⟨e, failed⟩ := refuses strayEdge ∅ oneNode .none not_wellFormed_strayEdge
    (by simp [MatchOptions.none])
  have accepted : strayEdge.run ∅ oneNode .none Collector.rows [] = ([], .ok ()) := by decide
  rw [accepted] at failed
  cases failed

section Singleton

theorem rows_singleton (p : PathPattern) (g : Graph) (symbols : Symbols) :
    (⟨[p]⟩ : Clause).rows g symbols = p.rows g ⟨symbols, ∅⟩ none := by
  have joined (found : Row) : Row.empty.join found = found := by
    rw [Row.join, Row.empty, InsertionMap.empty_union, List.nil_append]
  rw [rows, if_neg (by simp), rowsFrom]
  simp only [rowsFrom, joined]
  exact Findings.andThen_ok _

variable {σ : Type} {p : PathPattern} {g : Graph} {symbols : Symbols}

theorem run_singleton_of_check {limit : Option Nat}
    (checked : limit = some 0 → p.check? ⟨symbols, ∅⟩ = .ok ()) (pivot : Option Nat)
    (collector : Collector σ) (state : σ) :
    (⟨[p]⟩ : Clause).run g symbols ⟨pivot, limit⟩ collector state =
      p.run g symbols ⟨none, limit⟩ collector state := by
  rcases Decidable.em (limit = some 0) with nothing | positive
  · rw [PathPattern.run, PathPattern.search, checked nothing]
    simp [run, nothing, Outcome.result]
  · rw [run_eq_rows_run _ g symbols ⟨pivot, limit⟩ positive,
      p.run_eq_rows_run g symbols ⟨none, limit⟩ positive, rows_singleton]

theorem run_singleton (p : PathPattern) (g : Graph) (symbols : Symbols) (pivot limit : Option Nat)
    (collector : Collector σ) (state : σ) :
    ((limit = some 0 → p.check? ⟨symbols, ∅⟩ = .ok ()) →
      (⟨[p]⟩ : Clause).run g symbols ⟨pivot, limit⟩ collector.traced ([], state) =
          p.run g symbols ⟨none, limit⟩ collector.traced ([], state) ∧
        (⟨[p]⟩ : Clause).run g symbols ⟨pivot, limit⟩ collector state =
          p.run g symbols ⟨none, limit⟩ collector state) ∧
      ∀ e, p.check? ⟨symbols, ∅⟩ = .error e →
        (⟨[p]⟩ : Clause).run g symbols ⟨pivot, some 0⟩ collector.traced ([], state) =
            (([], state), .ok ()) ∧
          p.run g symbols ⟨none, some 0⟩ collector.traced ([], state) =
            (([], state), .error e) := by
  constructor
  · intro checked
    exact ⟨run_singleton_of_check checked pivot _ _, run_singleton_of_check checked pivot _ _⟩
  · intro e failed
    refine ⟨by simp [run], ?_⟩
    rw [PathPattern.run, PathPattern.search, failed]
    rfl

def emptyRange : PathPattern :=
  (PathPattern.ofNode .any).step ((EdgePattern.any .outgoing).withLength ⟨some 3, some 2⟩) .any

theorem run_singleton_emptyRange :
    (some 1 = some 0 → emptyRange.check? ⟨∅, ∅⟩ = .ok ()) ∧
      emptyRange.check? ⟨∅, ∅⟩ = .error (.invalidPattern (.emptyRange 1 (some 3) 2)) ∧
      ((⟨[emptyRange]⟩ : Clause).run .pair ∅ ⟨none, some 1⟩ Collector.rows.traced ([], []) =
          emptyRange.run .pair ∅ ⟨none, some 1⟩ Collector.rows.traced ([], []) ∧
        (⟨[emptyRange]⟩ : Clause).run .pair ∅ ⟨none, some 1⟩ Collector.rows [] =
          emptyRange.run .pair ∅ ⟨none, some 1⟩ Collector.rows []) ∧
      (⟨[emptyRange]⟩ : Clause).run .pair ∅ ⟨none, some 0⟩ Collector.rows.traced ([], []) =
          (([], []), .ok ()) ∧
        emptyRange.run .pair ∅ ⟨none, some 0⟩ Collector.rows.traced ([], []) =
          (([], []), .error (.invalidPattern (.emptyRange 1 (some 3) 2))) := by
  have both := run_singleton emptyRange .pair ∅ none (some 1) Collector.rows []
  exact ⟨by simp, by decide, both.1 (by simp), both.2 _ (by decide)⟩

theorem not_run_singleton_eq :
    ¬∀ (p : PathPattern) (g : Graph) (symbols : Symbols) (limit : Option Nat),
      (⟨[p]⟩ : Clause).run g symbols ⟨none, limit⟩ Collector.rows [] =
        p.run g symbols ⟨none, limit⟩ Collector.rows [] := by
  intro same
  have at_zero := same emptyRange ∅ ∅ (some 0)
  have refused : emptyRange.run ∅ ∅ ⟨none, some 0⟩ Collector.rows [] =
      ([], .error (.invalidPattern (.emptyRange 1 (some 3) 2))) := by decide
  rw [refused] at at_zero
  cases at_zero

end Singleton

end Clause

end PropertyGraph
