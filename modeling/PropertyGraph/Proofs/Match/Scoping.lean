import PropertyGraph.Proofs.Match.Rows

namespace PropertyGraph

namespace Scope

variable {symbols : Symbols} {pinned : Bindings} {entries : List (String × BoundValue)}

theorem fixes_pinned {n : String} :
    Fixes ⟨symbols, pinned⟩ n ↔ n ∈ pinned.keys ∨ n ∈ symbols := by
  rw [Fixes, InsertionMap.contains_iff]

theorem fixes_symbols {n : String} : Fixes ⟨symbols, ∅⟩ n ↔ n ∈ symbols := by
  simp [fixes_pinned]

theorem fixes_of_pinned {n : String} {v : BoundValue} (held : pinned.get? n = some v) :
    Fixes ⟨symbols, pinned⟩ n :=
  fixes_pinned.mpr (.inl (InsertionMap.mem_keys.mpr ⟨v, held⟩))

theorem fixes_of_unpinned {n : String} (held : pinned.get? n = none) :
    Fixes ⟨symbols, pinned⟩ n ↔ Fixes ⟨symbols, ∅⟩ n := by
  rw [fixes_pinned, fixes_symbols, or_iff_right (InsertionMap.get?_eq_none.mp held)]

theorem admits_of_pinned {n : String} {v w : BoundValue} (held : pinned.get? n = some w) :
    Admits ⟨symbols, pinned⟩ n v ↔ v = w := by
  simp only [Admits, held]

theorem admits_of_unpinned {n : String} {v : BoundValue} (held : pinned.get? n = none) :
    Admits ⟨symbols, pinned⟩ n v ↔ Admits ⟨symbols, ∅⟩ n v := by
  simp only [Admits, held, InsertionMap.get?_empty]

theorem admits_of_free {n : String} (free : ¬Fixes ⟨symbols, ∅⟩ n) (v : BoundValue) :
    Admits ⟨symbols, ∅⟩ n v := fun symbol at_name =>
  absurd (fixes_symbols.mpr (Std.ExtTreeMap.mem_iff_isSome_getElem?.mpr (by simp [at_name]))) free

theorem agrees_pinned (apart : ∀ n ∈ pinned.keys, n ∉ symbols) :
    Agrees ⟨symbols, pinned⟩ entries ↔
      Agrees ⟨symbols, ∅⟩ entries ∧ pinned.Agree (bound ⟨symbols, ∅⟩ entries) := by
  have free_of_pinned {n : String} {v : BoundValue} (held : pinned.get? n = some v) :
      ¬Fixes ⟨symbols, ∅⟩ n := fun fixed =>
    apart n (InsertionMap.mem_keys.mpr ⟨v, held⟩) (fixes_symbols.mp fixed)
  constructor
  · rintro ⟨admits, same⟩
    have agrees : Agrees ⟨symbols, ∅⟩ entries := by
      refine ⟨fun entry mem => ?_, fun a mem_a b mem_b eq free => ?_⟩
      · cases held : pinned.get? entry.1 with
        | none => exact (admits_of_unpinned held).mp (admits entry mem)
        | some v => exact admits_of_free (free_of_pinned held) entry.2
      · cases held : pinned.get? a.1 with
        | none =>
            exact same a mem_a b mem_b eq fun fixed => free ((fixes_of_unpinned held).mp fixed)
        | some v =>
            -- A pinned name is fixed, so that its values agree by being the one pinned.
            have at_a := (admits_of_pinned held).mp (admits a mem_a)
            have at_b := (admits_of_pinned (eq ▸ held)).mp (admits b mem_b)
            rw [at_a, at_b]
    refine ⟨agrees, fun n v w at_pinned at_bound => ?_⟩
    have mem := (agrees.get?_bound.mp at_bound).1
    exact ((admits_of_pinned at_pinned).mp (admits _ mem)).symm
  · rintro ⟨agrees, agree⟩
    refine ⟨fun entry mem => ?_, fun a mem_a b mem_b eq free => ?_⟩
    · obtain ⟨n, v⟩ := entry
      cases held : pinned.get? n with
      | none => exact (admits_of_unpinned held).mpr (agrees.1 _ mem)
      | some w =>
          have at_bound := agrees.get?_bound.mpr ⟨mem, free_of_pinned held⟩
          exact (admits_of_pinned held).mpr (agree n w v held at_bound).symm
    · refine agrees.2 a mem_a b mem_b eq fun fixed => free ?_
      exact fixes_pinned.mpr (.inr (fixes_symbols.mp fixed))

theorem union_bound (apart : ∀ n ∈ pinned.keys, n ∉ symbols)
    (agrees : Agrees ⟨symbols, pinned⟩ entries) :
    pinned.union (bound ⟨symbols, pinned⟩ entries) = pinned.union (bound ⟨symbols, ∅⟩ entries) := by
  obtain ⟨alone, agree⟩ := (agrees_pinned apart).mp agrees
  refine InsertionMap.ext_of_keys ?_ fun n => ?_
  · rw [InsertionMap.keys_union, InsertionMap.keys_union, keys_bound, keys_bound,
      List.filter_filter, List.filter_filter]
    refine congrArg (pinned.keys ++ ·) (List.filter_congr fun n _ => ?_)
    by_cases key : n ∈ pinned.keys
    · simp [key]
    · simp [key, fixes_pinned]
  · rw [InsertionMap.get?_union, InsertionMap.get?_union]
    cases held : pinned.get? n with
    | none =>
        refine congrArg (Option.or · none) (Option.ext fun v => ?_)
        rw [agrees.get?_bound, alone.get?_bound, fixes_of_unpinned held]
    | some w =>
        have unbound : (bound ⟨symbols, pinned⟩ entries).get? n = none :=
          Option.eq_none_iff_forall_ne_some.mpr fun v at_n =>
            (agrees.get?_bound.mp at_n).2 (fixes_of_pinned held)
        rw [unbound]
        cases found : (bound ⟨symbols, ∅⟩ entries).get? n with
        | none => rfl
        | some v => exact congrArg some (agree n w v held found)

end Scope

def Row.Avoids (row : Row) (symbols : Symbols) : Prop := ∀ n ∈ row.bindings.keys, n ∉ symbols

namespace PathPattern

variable {p : PathPattern} {g : Graph} {symbols : Symbols} {row found : Row}

def rowAt (p : PathPattern) (symbols : Symbols) (path : List BoundValue) : Row :=
  ⟨path, Scope.bound ⟨symbols, ∅⟩ (p.entries path)⟩

theorem Matches.eq_rowAt (is_match : p.Matches g ⟨symbols, ∅⟩ row) :
    row = p.rowAt symbols row.path := by
  rw [rowAt, ← is_match.bindings]

theorem matches_rowAt {path : List BoundValue} : p.Matches g ⟨symbols, ∅⟩ (p.rowAt symbols path) ↔
    p.Fits g path ∧ Scope.Agrees ⟨symbols, ∅⟩ (p.entries path) :=
  ⟨fun is_match => ⟨is_match.fits, is_match.agrees⟩, fun h => ⟨h.1, h.2, rfl⟩⟩

theorem matches_pinned (apart : row.Avoids symbols) :
    p.Matches g ⟨symbols, row.bindings⟩ found ↔
      p.Matches g ⟨symbols, ∅⟩ (p.rowAt symbols found.path) ∧
        row.bindings.Agree (p.rowAt symbols found.path).bindings ∧
          found.bindings = Scope.bound ⟨symbols, row.bindings⟩ (p.entries found.path) := by
  rw [matches_rowAt]
  constructor
  · rintro ⟨fits, agrees, bindings⟩
    obtain ⟨alone, agree⟩ := (Scope.agrees_pinned apart).mp agrees
    exact ⟨⟨fits, alone⟩, agree, bindings⟩
  · rintro ⟨⟨fits, alone⟩, agree, bindings⟩
    exact ⟨fits, (Scope.agrees_pinned apart).mpr ⟨alone, agree⟩, bindings⟩

theorem Matches.join_eq (apart : row.Avoids symbols)
    (is_match : p.Matches g ⟨symbols, row.bindings⟩ found) :
    row.join found = row.join (p.rowAt symbols found.path) := by
  rw [Row.join, Row.join, is_match.bindings, Scope.union_bound apart is_match.agrees]
  rfl

theorem Matches.join_avoids (apart : row.Avoids symbols)
    (is_match : p.Matches g ⟨symbols, row.bindings⟩ found) : (row.join found).Avoids symbols := by
  intro n mem
  rw [Row.join, InsertionMap.keys_union, List.mem_append] at mem
  rcases mem with mem | mem
  · exact apart n mem
  · have bound := (List.mem_filter.mp mem).1
    rw [is_match.bindings, Scope.keys_bound] at bound
    have free : ¬Scope.Fixes ⟨symbols, row.bindings⟩ n := by simpa using (List.mem_filter.mp bound).2
    exact fun symbol => free (Scope.fixes_pinned.mpr (.inr symbol))

theorem Matches.join_agree (apart : row.Avoids symbols)
    (is_match : p.Matches g ⟨symbols, row.bindings⟩ found) (other : Bindings) :
    (row.join found).bindings.Agree other ↔
      row.bindings.Agree other ∧ (p.rowAt symbols found.path).bindings.Agree other := by
  rw [is_match.join_eq apart, Row.join]
  exact InsertionMap.union_agree ((matches_pinned apart).mp is_match).2.1

end PathPattern

end PropertyGraph
