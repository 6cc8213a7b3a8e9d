import PropertyGraph.Proofs.Match.Shapes

namespace PropertyGraph

section Entries

variable {p : PathPattern} {g : Graph} {scope : Scope} {path : List BoundValue}

theorem PathPattern.mem_entries {n : String} {v : BoundValue} :
    (n, v) ∈ p.entries path ↔ ∃ (i : Nat) (element : Element), p.elements[i]? = some element ∧
      element.name = some n ∧ path[i]? = some v := by
  rw [entries, List.mem_filterMap]
  constructor
  · rintro ⟨⟨element, value⟩, mem, eq⟩
    obtain ⟨name, named, same⟩ := Option.map_eq_some_iff.mp eq
    cases same
    obtain ⟨i, at_i⟩ := List.mem_iff_getElem?.mp mem
    obtain ⟨at_element, at_value⟩ := List.getElem?_zip_eq_some.mp at_i
    exact ⟨i, element, at_element, named, at_value⟩
  · rintro ⟨i, element, at_element, named, at_value⟩
    refine ⟨(element, v), ?_, by simp [named]⟩
    exact List.mem_iff_getElem?.mpr ⟨i, List.getElem?_zip_eq_some.mpr ⟨at_element, at_value⟩⟩

theorem PathPattern.map_fst_entries (full : path.length = p.length) :
    (p.entries path).map Prod.fst = p.elements.filterMap Element.name := by
  rw [← length_elements] at full
  have elements : (p.elements.zip path).map Prod.fst = p.elements :=
    List.map_fst_zip (Nat.le_of_eq full.symm)
  calc (p.entries path).map Prod.fst
      = (p.elements.zip path).filterMap fun pair => pair.1.name := by
        rw [entries, List.map_filterMap]
        refine List.filterMap_congr fun pair _ => ?_
        obtain ⟨element, value⟩ := pair
        dsimp only
        cases element.name <;> rfl
    _ = ((p.elements.zip path).map Prod.fst).filterMap Element.name := by
        rw [List.filterMap_map]
        rfl
    _ = p.elements.filterMap Element.name := by rw [elements]

theorem PathPattern.names_eq (full : path.length = p.length) :
    p.names = ((p.entries path).map Prod.fst).eraseDups := by
  rw [map_fst_entries full, names]

theorem PathPattern.mem_names (full : path.length = p.length) {n : String} :
    n ∈ p.names ↔ ∃ v, (n, v) ∈ p.entries path := by
  simp [names_eq full]

theorem Scope.Agrees.get?_bound {entries : List (String × BoundValue)}
    (agrees : scope.Agrees entries) {n : String} {v : BoundValue} :
    (scope.bound entries).get? n = some v ↔ (n, v) ∈ entries ∧ ¬scope.Fixes n := by
  rw [bound, InsertionMap.get?_ofList]
  · simp [List.mem_filter]
  · intro k v w mem_v mem_w
    obtain ⟨mem_v, free⟩ := List.mem_filter.mp mem_v
    obtain ⟨mem_w, -⟩ := List.mem_filter.mp mem_w
    exact agrees.2 _ mem_v _ mem_w rfl (by simpa using free)

theorem Scope.keys_bound (scope : Scope) (entries : List (String × BoundValue)) :
    (scope.bound entries).keys =
      (entries.map Prod.fst).eraseDups.filter fun n => ¬scope.Fixes n := by
  rw [bound, InsertionMap.keys_ofList, ← eraseDups_filter, List.filter_map]
  rfl

theorem PathPattern.Matches.ext {a b : Row} (ha : p.Matches g scope a) (hb : p.Matches g scope b)
    (same : a.path = b.path) : a = b := by
  have bindings := ha.bindings
  rw [same, ← hb.bindings] at bindings
  obtain ⟨path_a, bindings_a⟩ := a
  obtain ⟨path_b, bindings_b⟩ := b
  cases same
  cases bindings
  rfl

end Entries

section Full

variable {ctx : Context} {slots : List Slot}

theorem Context.slot?_of_full (full : ctx.path = slots.map some) (i : Nat) :
    ctx.slot? i = slots[i]? := by
  rw [slot?, full, List.getElem?_map]
  cases slots[i]? <;> rfl

theorem Context.pathValues_of_full (full : ctx.path = slots.map some) :
    ctx.pathValues = slots.map Slot.value := by
  rw [pathValues, full]
  simp

theorem Context.exists_slots
    (filled : ∀ i, i < ctx.path.length → ∃ slot, ctx.slot? i = some slot) :
    ∃ slots : List Slot, ctx.path = slots.map some := by
  refine ⟨ctx.path.filterMap id, ?_⟩
  have each : ∀ item ∈ ctx.path, ∃ slot, item = some slot := by
    intro item mem
    obtain ⟨i, at_i⟩ := List.mem_iff_getElem?.mp mem
    obtain ⟨slot, there⟩ := filled i (List.getElem?_eq_some_iff.mp at_i).1
    rw [slot?, at_i] at there
    exact ⟨slot, there⟩
  generalize ctx.path = path at each
  induction path with
  | nil => rfl
  | cons item rest ih =>
      obtain ⟨slot, rfl⟩ := each item List.mem_cons_self
      have later := ih fun item mem => each item (List.mem_cons_of_mem _ mem)
      rw [List.filterMap_cons_some (show id (some slot) = some slot from rfl), List.map_cons, ← later]

end Full

theorem Context.get?_rowBindings (ctx : Context) {names : List String} {n : String}
    {v : BoundValue} :
    (ctx.rowBindings names).get? n = some v ↔ n ∈ names ∧ ctx.bindings.get? n = some v := by
  have listed {k : String} {w : BoundValue} : (k, w) ∈ names.filterMap (fun name =>
      (ctx.bindings.get? name).map fun value => (name, value)) ↔
      k ∈ names ∧ ctx.bindings.get? k = some w := by
    rw [List.mem_filterMap]
    constructor
    · rintro ⟨name, mem, eq⟩
      obtain ⟨value, held, same⟩ := Option.map_eq_some_iff.mp eq
      cases same
      exact ⟨mem, held⟩
    · rintro ⟨mem, held⟩
      exact ⟨k, mem, by simp [held]⟩
  rw [rowBindings, InsertionMap.get?_ofList, listed]
  intro k v w mem_v mem_w
  exact Option.some.inj ((listed.mp mem_v).2.symm.trans (listed.mp mem_w).2)

namespace PathPattern

variable {p : PathPattern} {g : Graph} {scope : Scope}

def rowOf (p : PathPattern) (ctx : Context) : Row := ⟨ctx.pathValues, ctx.rowBindings p.names⟩

def rows (p : PathPattern) (g : Graph) (scope : Scope) (pivot : Option Nat) : Findings Row :=
  match p.check? scope with
  | .error e => [.error e]
  | .ok () =>
      match p.plan? g scope pivot with
      | .error e => [.error e]
      | .ok plan =>
          (contexts g scope plan.steps (.empty p.length)).map (Except.map p.rowOf)

section Collecting

variable {σ : Type}

theorem visitEach_limited (collector : Collector σ) (findings : Findings Row) (n : Nat) (s : σ) :
    let ended := visitEach (collector.limited none) findings (n, s)
    (ended.1.2, ended.2) = visitEach collector findings s := by
  induction findings generalizing n s with
  | nil => rfl
  | cons item rest ih =>
      cases item with
      | error e => rfl
      | ok row =>
          simp only [visitEach_cons_ok, Collector.limited]
          rcases collector row s with ⟨s', _ | _ | e⟩
          · exact ih (n + 1) s'
          · rfl
          · rfl

theorem emit_eq (collector : Collector σ) (ctx : Context) (s : σ) :
    p.emit collector ⟨ctx, s⟩ = endsIn ctx (collector (p.rowOf ctx) s) := rfl

theorem execute_eq {pivot : Option Nat} {plan : Plan} (planned : p.plan? g scope pivot = .ok plan)
    {sink : Visit (Progress σ)} {out : Context → Visit σ}
    (sink_eq : ∀ ctx s, sink ⟨ctx, s⟩ = endsIn ctx (out ctx s)) (s : σ) :
    plan.execute g scope sink ⟨.empty p.length, s⟩ = endsIn (.empty p.length)
      (visitEach out (contexts g scope plan.steps (.empty p.length)) s) := by
  obtain ⟨start, bound, tasks, steps, covers⟩ := plan?_eq_ok planned
  have awaits := covers.awaits bound
  refine foldr_run_eq sink_eq ?_ ?_ s
  · simpa [steps, Function.comp_def] using awaits.distinct
  · simpa [steps] using awaits.empty

theorem search_eq_limited {options : MatchOptions} (positive : options.limit ≠ some 0)
    (collector : Collector σ) (s : σ) :
    p.search g scope options collector s =
      let ended := visitEach (collector.limited options.limit) (p.rows g scope options.pivot) (0, s)
      (ended.1.2, ended.2) := by
  unfold search rows
  cases p.check? scope with
  | error e => rfl
  | ok =>
      rw [if_neg positive]
      cases planned : p.plan? g scope options.pivot with
      | error e => rfl
      | ok plan =>
          simp only [visitEach_map]
          rw [execute_eq planned (emit_eq (collector.limited options.limit))]
          rfl

theorem search_eq (pivot : Option Nat) (collector : Collector σ) (s : σ) :
    p.search g scope ⟨pivot, none⟩ collector s = visitEach collector (p.rows g scope pivot) s :=
  (search_eq_limited (by simp) collector s).trans (visitEach_limited collector _ 0 s)

end Collecting

section Exactness

variable {pivot : Option Nat} {start : Nat} {tasks : List Task} {final : Context}
variable {P : Element → Slot → Prop}

theorem Covers.exists_slots (covers : p.Covers start tasks) (bound : start < p.length)
    (completes : Completes P scope tasks (.empty p.length) final) :
    ∃ slots : List Slot, final.path = slots.map some ∧ slots.length = p.length ∧
      List.Forall₂ P p.elements slots ∧ slots.IsChain Slot.Meets := by
  have length : final.path.length = p.length := by
    rw [completes.length, Context.empty, List.length_replicate]
  obtain ⟨slots, full⟩ := final.exists_slots fun i within => by
    obtain ⟨task, mem, rfl⟩ :=
      List.mem_map.mp ((covers.mem_positions bound).mpr (length ▸ within))
    obtain ⟨slot, there, -⟩ := completes.found task mem
    exact ⟨slot, there⟩
  rw [full, List.length_map] at length
  refine ⟨slots, full, length, covers.laid_of_stands bound length fun task mem => ?_⟩
  obtain ⟨slot, there, fits, stands, -⟩ := completes.found task mem
  have same : final.slot? = fun i => slots[i]? := funext (Context.slot?_of_full full)
  rw [same] at there stands
  exact ⟨slot, there, fits, stands⟩

theorem Covers.get?_bindings (covers : p.Covers start tasks) (bound : start < p.length)
    (completes : Completes P scope tasks (.empty p.length) final) {slots : List Slot}
    (full : final.path = slots.map some) {n : String} {v : BoundValue} :
    final.bindings.get? n = some v ↔
      (n, v) ∈ p.entries (slots.map Slot.value) ∧ ¬scope.Fixes n := by
  rw [completes.bindings, mem_entries]
  simp only [Context.empty, InsertionMap.get?_empty, reduceCtorEq, false_or,
    Context.slot?_of_full full]
  constructor
  · rintro ⟨task, mem, named, free, slot, there, rfl⟩
    refine ⟨⟨task.position, task.element, covers.element task mem, named, ?_⟩, free⟩
    rw [List.getElem?_map, there]
    rfl
  · rintro ⟨⟨i, element, at_element, named, at_value⟩, free⟩
    obtain ⟨task, mem, rfl, rfl⟩ := covers.exists_task bound at_element
    rw [List.getElem?_map] at at_value
    obtain ⟨slot, there, value⟩ := Option.map_eq_some_iff.mp at_value
    exact ⟨task, mem, named, free, slot, there, value⟩

theorem Covers.agrees (covers : p.Covers start tasks) (bound : start < p.length)
    (completes : Completes P scope tasks (.empty p.length) final) {slots : List Slot}
    (full : final.path = slots.map some) :
    scope.Agrees (p.entries (slots.map Slot.value)) := by
  have named {n : String} {v : BoundValue} (mem : (n, v) ∈ p.entries (slots.map Slot.value)) :
      scope.Admits n v := by
    obtain ⟨i, element, at_element, named, at_value⟩ := mem_entries.mp mem
    obtain ⟨task, mem, rfl, rfl⟩ := covers.exists_task bound at_element
    obtain ⟨slot, there, -, -, names⟩ := completes.found task mem
    rw [Context.slot?_of_full full] at there
    rw [List.getElem?_map, there] at at_value
    cases at_value
    exact (names n named).1
  refine ⟨fun entry mem => named mem, ?_⟩
  rintro ⟨n, v⟩ mem_v ⟨m, w⟩ mem_w rfl free
  have at_v := (covers.get?_bindings bound completes full).mpr ⟨mem_v, free⟩
  have at_w := (covers.get?_bindings bound completes full).mpr ⟨mem_w, free⟩
  exact Option.some.inj (at_v.symm.trans at_w)

theorem Covers.rowBindings (covers : p.Covers start tasks) (bound : start < p.length)
    (completes : Completes P scope tasks (.empty p.length) final) {slots : List Slot}
    (full : final.path = slots.map some) (length : slots.length = p.length) :
    final.rowBindings p.names = scope.bound (p.entries (slots.map Slot.value)) := by
  have get? {n : String} {v : BoundValue} :=
    covers.get?_bindings bound completes full (n := n) (v := v)
  have agrees := covers.agrees bound completes full
  have values : (slots.map Slot.value).length = p.length := by rwa [List.length_map]
  have distinct : p.names.Nodup := nodup_eraseDups _
  refine InsertionMap.ext_of_keys ?_ fun n => Option.ext fun v => ?_
  · have keys_left : (p.names.filterMap fun name =>
        (final.bindings.get? name).map fun value => (name, value)).map Prod.fst =
          p.names.filter fun n => ¬scope.Fixes n := by
      rw [List.map_filterMap, ← List.filterMap_eq_filter]
      refine List.filterMap_congr fun n mem => ?_
      obtain ⟨v, there⟩ := (mem_names values).mp mem
      by_cases fixed : scope.Fixes n
      · have absent : final.bindings.get? n = none :=
          Option.eq_none_iff_forall_ne_some.mpr fun w held => (get?.mp held).2 fixed
        simp [absent, fixed, Option.guard]
      · simp [get?.mpr ⟨there, fixed⟩, fixed, Option.guard]
    rw [Context.rowBindings, InsertionMap.keys_ofList, keys_left,
      eraseDups_of_nodup (distinct.filter _), Scope.keys_bound, names_eq values]
  · rw [Context.get?_rowBindings, agrees.get?_bound, ← get?]
    exact and_iff_right_of_imp fun held => (mem_names values).mpr ⟨v, (get?.mp held).1⟩

theorem matches_of_mem_contexts (h : g.Sound) (covers : p.Covers start tasks)
    (bound : start < p.length)
    (mem : .ok final ∈ contexts g scope (tasks.map Task.operator) (.empty p.length)) :
    p.Matches g scope (p.rowOf final) := by
  have completes := completes_of_mem_contexts (fun _ _ _ => Task.admits_of_mem_slots h)
    (covers.awaits bound) mem
  obtain ⟨slots, full, length, admits, meets⟩ := covers.exists_slots bound completes
  have path : (p.rowOf final).path = slots.map Slot.value := final.pathValues_of_full full
  refine ⟨?_, ?_, ?_⟩ <;> rw [path]
  · exact (fits_of_laid admits meets).1
  · exact covers.agrees bound completes full
  · exact covers.rowBindings bound completes full length

theorem exists_row_of_matches (h : g.Sound) (covers : p.Covers start tasks)
    (bound : start < p.length)
    (clean : (contexts g scope (tasks.map Task.operator) (.empty p.length)).Clean) {row : Row}
    (is_match : p.Matches g scope row) :
    ∃ final, .ok final ∈ contexts g scope (tasks.map Task.operator) (.empty p.length) ∧
      p.rowOf final = row := by
  obtain ⟨admits, meets, values⟩ := laid_of_fits is_match.fits
  have length : (slotsOf row.path).length = p.length := by
    rw [← admits.length_eq, length_elements]
  have asks := (covers.asks_iff bound length).mpr ⟨admits, meets⟩
  have others (i : Nat) (outside : i ∉ tasks.map Task.position) :
      (slotsOf row.path)[i]? = (Context.empty p.length).slot? i := by
    rw [covers.mem_positions bound, ← length] at outside
    rw [List.getElem?_eq_none (Nat.le_of_not_lt outside), Context.slot?, Context.empty,
      List.getElem?_eq_none (by simpa [length] using outside)]
    rfl
  have named (task : Task) (mem : task ∈ tasks) :
      ∃ slot, (slotsOf row.path)[task.position]? = some slot ∧
      task.Asks g (fun i => (slotsOf row.path)[i]?) slot ∧
      task.Names scope (scope.bound (p.entries row.path)).get? slot := by
    obtain ⟨slot, there, asked⟩ := asks task mem
    refine ⟨slot, there, asked, fun n eq => ?_⟩
    have at_value : row.path[task.position]? = some slot.value := by
      rw [← values, List.getElem?_map, there]
      rfl
    have entry : (n, slot.value) ∈ p.entries row.path :=
      mem_entries.mpr ⟨task.position, task.element, covers.element task mem, eq, at_value⟩
    exact ⟨is_match.agrees.1 _ entry, fun free => is_match.agrees.get?_bound.mpr ⟨entry, free⟩⟩
  obtain ⟨final, mem, same⟩ := exists_mem_contexts h clean (covers.awaits bound) others named
    fun n v held => by cases held
  have found := matches_of_mem_contexts h covers bound mem
  have completes := completes_of_mem_contexts (fun _ _ _ => Task.admits_of_mem_slots h)
    (covers.awaits bound) mem
  obtain ⟨slots, full, -⟩ := covers.exists_slots bound completes
  have slots_eq : slots = slotsOf row.path :=
    List.ext_getElem? fun i => by rw [← Context.slot?_of_full full, same]
  refine ⟨final, mem, found.ext is_match ?_⟩
  rw [← values, ← slots_eq]
  exact final.pathValues_of_full full

theorem eq_of_rowOf_eq (h : g.Sound) (covers : p.Covers start tasks) (bound : start < p.length)
    {other : Context}
    (mem : .ok final ∈ contexts g scope (tasks.map Task.operator) (.empty p.length))
    (other_mem : .ok other ∈ contexts g scope (tasks.map Task.operator) (.empty p.length))
    (same : p.rowOf final = p.rowOf other) : final = other := by
  have slots_of {ctx : Context}
      (mem : .ok ctx ∈ contexts g scope (tasks.map Task.operator) (.empty p.length)) :
      ctx.path = (slotsOf ctx.pathValues).map some := by
    have completes := completes_of_mem_contexts (fun _ _ _ => Task.admits_of_mem_slots h)
      (covers.awaits bound) mem
    obtain ⟨slots, full, -, admits, meets⟩ := covers.exists_slots bound completes
    rw [ctx.pathValues_of_full full, ← (fits_of_laid admits meets).2, full]
  have values : final.pathValues = other.pathValues := congrArg Row.path same
  have paths : final.path = other.path := by rw [slots_of mem, slots_of other_mem, values]
  refine eq_of_mem_contexts (covers.awaits bound) mem other_mem fun i => ?_
  rw [Context.slot?, Context.slot?, paths]

theorem rows_cases (p : PathPattern) (g : Graph) (scope : Scope) (pivot : Option Nat) :
    (∃ e, p.rows g scope pivot = [.error e]) ∨ ∃ start tasks, start < p.length ∧
      p.Covers start tasks ∧ p.rows g scope pivot =
        (contexts g scope (tasks.map Task.operator) (.empty p.length)).map (Except.map p.rowOf) := by
  unfold rows
  cases p.check? scope with
  | error e => exact .inl ⟨e, rfl⟩
  | ok =>
      cases planned : p.plan? g scope pivot with
      | error e => exact .inl ⟨e, rfl⟩
      | ok plan =>
          obtain ⟨start, bound, tasks, steps, covers⟩ := plan?_eq_ok planned
          exact .inr ⟨start, tasks, bound, covers, by rw [← steps]⟩

theorem exists_context_of_mem_rows {row : Row} (mem : .ok row ∈ p.rows g scope pivot) :
    ∃ start tasks final, start < p.length ∧ p.Covers start tasks ∧
      .ok final ∈ contexts g scope (tasks.map Task.operator) (.empty p.length) ∧
        p.rowOf final = row := by
  rcases p.rows_cases g scope pivot with ⟨e, failed⟩ | ⟨start, tasks, bound, covers, eq⟩
  · rw [failed] at mem
    cases List.mem_singleton.mp mem
  · rw [eq] at mem
    obtain ⟨final, there, same⟩ := ok_mem_map_map.mp mem
    exact ⟨start, tasks, final, bound, covers, there, same⟩

theorem not_fixes_of_mem_rows {row : Row} (mem : .ok row ∈ p.rows g scope pivot) {n : String}
    (bound_name : n ∈ row.bindings.keys) : ¬scope.Fixes n := by
  obtain ⟨start, tasks, final, bound, covers, there, rfl⟩ := exists_context_of_mem_rows mem
  have completes := completes_of_mem_contexts (P := fun _ _ => True) (fun _ _ _ _ => trivial)
    (covers.awaits bound) there
  obtain ⟨v, held⟩ := InsertionMap.mem_keys.mp bound_name
  rcases (completes.bindings n v).mp (final.get?_rowBindings.mp held).2 with
    nothing | ⟨task, -, -, free, -⟩
  · cases nothing
  · exact free

theorem matches_of_mem_rows (h : g.Sound) {row : Row} (mem : .ok row ∈ p.rows g scope pivot) :
    p.Matches g scope row := by
  obtain ⟨start, tasks, final, bound, covers, there, rfl⟩ := exists_context_of_mem_rows mem
  exact matches_of_mem_contexts h covers bound there

theorem mem_rows (h : g.Sound) (clean : (p.rows g scope pivot).Clean) {row : Row} :
    .ok row ∈ p.rows g scope pivot ↔ p.Matches g scope row := by
  refine ⟨matches_of_mem_rows h, fun is_match => ?_⟩
  rcases p.rows_cases g scope pivot with ⟨e, failed⟩ | ⟨start, tasks, bound, covers, eq⟩
  · rw [failed] at clean
    exact absurd (List.mem_singleton_self _) (clean e)
  · rw [eq] at clean ⊢
    exact ok_mem_map_map.mpr
      (exists_row_of_matches h covers bound (clean_of_map_map clean) is_match)

theorem nodup_rows (h : g.Sound) (clean : (p.rows g scope pivot).Clean) :
    (p.rows g scope pivot).Nodup := by
  rcases p.rows_cases g scope pivot with ⟨e, failed⟩ | ⟨start, tasks, bound, covers, eq⟩
  · rw [failed]
    exact List.nodup_singleton _
  · rw [eq] at clean ⊢
    have clean := clean_of_map_map clean
    exact nodup_map_map (fun a b mem_a mem_b => eq_of_rowOf_eq h covers bound mem_a mem_b)
      (nodup_contexts h clean (covers.awaits bound))

end Exactness

end PathPattern

end PropertyGraph
