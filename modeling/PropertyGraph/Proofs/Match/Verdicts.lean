import PropertyGraph.Proofs.Container.InsertionMap
import PropertyGraph.Proofs.Match.Findings
import PropertyGraph.Proofs.Match.Semantics

namespace PropertyGraph

theorem Slot.kind_value (slot : Slot) : slot.value.kind = slot.kind := by
  cases slot <;> rfl

theorem PatternSymbol.kind_of_contains {symbol : PatternSymbol} {value : BoundValue}
    (h : symbol.contains value = true) : value.kind = symbol.kind := by
  cases symbol <;> cases value <;> first | rfl | cases h

theorem Slot.weigh?_eq_allowed {slot : Slot} {name : String} {found : VariableKind} {fits : Bool} :
    slot.weigh? name found fits = .ok .allowed ↔ slot.kind = found ∧ fits = true := by
  unfold weigh?
  by_cases same : slot.kind = found <;> cases fits <;> simp [same]

theorem Slot.weigh?_ne_fresh {slot : Slot} {name : String} {found : VariableKind} {fits : Bool} :
    slot.weigh? name found fits ≠ .ok .fresh := by
  unfold weigh?
  by_cases same : slot.kind = found <;> cases fits <;> simp [same]

namespace Scope

variable {scope : Scope} {name : String} {value : BoundValue}

theorem not_fixes_iff :
    ¬scope.Fixes name ↔ scope.pinned.get? name = none ∧ scope.symbols[name]? = none := by
  unfold Fixes
  rw [not_or, InsertionMap.contains, Bool.not_eq_true, Option.isSome_eq_false_iff,
    Option.isNone_iff_eq_none, Std.ExtTreeMap.mem_iff_isSome_getElem?, Bool.not_eq_true,
    Option.isSome_eq_false_iff, Option.isNone_iff_eq_none]

theorem admits_of_not_fixes (free : ¬scope.Fixes name) : scope.Admits name value := by
  obtain ⟨unpinned, no_symbol⟩ := not_fixes_iff.mp free
  unfold Admits
  rw [unpinned]
  intro symbol found
  rw [no_symbol] at found
  cases found

end Scope

namespace Context

variable {ctx filled : Context} {scope : Scope} {position : Nat} {slot : Slot}

section Verdict

variable {name : String}

theorem verdict?_of_fixes (fixed : scope.Fixes name) :
    ctx.verdict? scope name slot = .ok .allowed ↔ scope.Admits name slot.value := by
  unfold verdict? Scope.Admits
  cases pinned : scope.pinned.get? name with
  | some value =>
      simp only [Slot.weigh?_eq_allowed, beq_iff_eq, and_iff_right_iff_imp]
      rintro rfl
      exact slot.kind_value.symm
  | none =>
      cases found : scope.symbols[name]? with
      | none => exact absurd fixed (Scope.not_fixes_iff.mpr ⟨pinned, found⟩)
      | some symbol =>
          simp only [Slot.weigh?_eq_allowed, Option.some.injEq, forall_eq',
            and_iff_right_iff_imp]
          intro member
          exact slot.kind_value.symm.trans (PatternSymbol.kind_of_contains member)

theorem verdict?_fresh_of_fixes (fixed : scope.Fixes name) :
    ctx.verdict? scope name slot ≠ .ok .fresh := by
  unfold verdict?
  cases pinned : scope.pinned.get? name with
  | some value => exact Slot.weigh?_ne_fresh
  | none =>
      cases found : scope.symbols[name]? with
      | none => exact absurd fixed (Scope.not_fixes_iff.mpr ⟨pinned, found⟩)
      | some symbol => exact Slot.weigh?_ne_fresh

theorem verdict?_of_free (free : ¬scope.Fixes name) :
    ctx.verdict? scope name slot = .ok .allowed ↔ ctx.bindings.get? name = some slot.value := by
  obtain ⟨unpinned, no_symbol⟩ := Scope.not_fixes_iff.mp free
  unfold verdict?
  rw [unpinned, no_symbol]
  cases bound : ctx.bindings.get? name with
  | none => simp
  | some value =>
      simp only [Slot.weigh?_eq_allowed, beq_iff_eq, Option.some.injEq]
      constructor
      · exact fun same => same.2.symm
      · rintro rfl
        exact ⟨slot.kind_value.symm, rfl⟩

theorem verdict?_fresh_of_free (free : ¬scope.Fixes name) :
    ctx.verdict? scope name slot = .ok .fresh ↔ ctx.bindings.get? name = none := by
  obtain ⟨unpinned, no_symbol⟩ := Scope.not_fixes_iff.mp free
  unfold verdict?
  rw [unpinned, no_symbol]
  cases ctx.bindings.get? name with
  | none => simp
  | some value => simp [Slot.weigh?_ne_fresh]

theorem verdict?_fresh_iff : ctx.verdict? scope name slot = .ok .fresh ↔
    ¬scope.Fixes name ∧ ctx.bindings.get? name = none := by
  by_cases fixed : scope.Fixes name
  · simp [fixed, verdict?_fresh_of_fixes fixed]
  · simp [fixed, verdict?_fresh_of_free fixed]

end Verdict

def fill (ctx : Context) (scope : Scope) (position : Nat) (name : Option String) (slot : Slot) :
    Findings Context :=
  match ctx.place scope position name slot with
  | (_, .error e) => [.error e]
  | (_, .ok none) => []
  | (filled, .ok (some _)) => [.ok filled]

variable {name : Option String}

theorem put_within {bindings : Bindings} {boundName : Bool} (within : position < ctx.path.length) :
    ctx.put bindings position slot boundName =
      (⟨bindings, ctx.path.set position (some slot)⟩, .ok (some ⟨position, boundName⟩)) :=
  if_pos within

theorem put_outside {bindings : Bindings} {boundName : Bool}
    (outside : ¬position < ctx.path.length) :
    ctx.put bindings position slot boundName =
      (ctx, .error (.outOfBounds position ctx.path.length)) :=
  if_neg outside

theorem put_cases (ctx : Context) (bindings : Bindings) (position : Nat) (slot : Slot)
    (boundName : Bool) :
    (∃ e, ctx.put bindings position slot boundName = (ctx, .error e)) ∨
    ctx.put bindings position slot boundName =
      (⟨bindings, ctx.path.set position (some slot)⟩, .ok (some ⟨position, boundName⟩)) := by
  by_cases within : position < ctx.path.length
  · exact .inr (put_within within)
  · exact .inl ⟨_, put_outside within⟩

theorem place_cases (ctx : Context) (scope : Scope) (position : Nat) (name : Option String)
    (slot : Slot) :
    (∃ e, ctx.place scope position name slot = (ctx, .error e)) ∨
    (ctx.place scope position name slot = (ctx, .ok none) ∧
      ∃ n, name = some n ∧ ctx.verdict? scope n slot = .ok .refused) ∨
    (ctx.place scope position name slot =
        ({ ctx with path := ctx.path.set position (some slot) }, .ok (some ⟨position, false⟩)) ∧
      ∀ n, name = some n → ctx.verdict? scope n slot = .ok .allowed) ∨
    ∃ n, name = some n ∧ ctx.verdict? scope n slot = .ok .fresh ∧
      ctx.place scope position name slot =
        (⟨ctx.bindings.insert n slot.value, ctx.path.set position (some slot)⟩,
          .ok (some ⟨position, true⟩)) := by
  cases name with
  | none =>
      rcases put_cases ctx ctx.bindings position slot false with ⟨e, failed⟩ | placed
      · exact .inl ⟨e, failed⟩
      · exact .inr (.inr (.inl ⟨placed, fun n eq => by cases eq⟩))
  | some n =>
      cases verdict : ctx.verdict? scope n slot with
      | error e => exact .inl ⟨e, by simp [place, verdict]⟩
      | ok answer =>
          cases answer with
          | refused => exact .inr (.inl ⟨by simp [place, verdict], n, rfl, verdict⟩)
          | allowed =>
              have puts : ctx.place scope position (some n) slot =
                  ctx.put ctx.bindings position slot false := by simp [place, verdict]
              rcases put_cases ctx ctx.bindings position slot false with ⟨e, failed⟩ | placed
              · exact .inl ⟨e, puts.trans failed⟩
              · refine .inr (.inr (.inl ⟨puts.trans placed, fun m eq => ?_⟩))
                cases eq
                exact verdict
          | fresh =>
              have puts : ctx.place scope position (some n) slot =
                  ctx.put (ctx.bindings.insert n slot.value) position slot true := by
                simp [place, verdict]
              rcases put_cases ctx (ctx.bindings.insert n slot.value) position slot true with
                ⟨e, failed⟩ | placed
              · exact .inl ⟨e, puts.trans failed⟩
              · exact .inr (.inr (.inr ⟨n, rfl, verdict, puts.trans placed⟩))

theorem set_none_set (empty : ctx.slot? position = none) (slot : Slot) :
    (ctx.path.set position (some slot)).set position none = ctx.path := by
  rw [List.set_set]
  refine List.ext_getElem? fun i => ?_
  rw [List.getElem?_set]
  split
  · rename_i same
    subst same
    split
    · rename_i bound
      rw [slot?, List.getElem?_eq_getElem bound] at empty
      rw [List.getElem?_eq_getElem bound]
      exact congrArg some empty.symm
    · rename_i outside
      exact (List.getElem?_eq_none (Nat.le_of_not_lt outside)).symm
  · rfl

theorem release_place (scope : Scope) (name : Option String) (slot : Slot)
    (empty : ctx.slot? position = none) :
    match ctx.place scope position name slot with
    | (after, .ok (some receipt)) => after.release receipt = ctx
    | (after, _) => after = ctx := by
  have path := set_none_set empty slot
  rcases ctx.place_cases scope position name slot with
    ⟨e, placed⟩ | ⟨placed, -⟩ | ⟨placed, -⟩ | ⟨n, -, verdict, placed⟩
  · rw [placed]
  · rw [placed]
  · rw [placed]
    simp [release, path]
  · have absent := (verdict?_fresh_iff.mp verdict).2
    rw [placed]
    simp [release, path, InsertionMap.dropLast_insert absent]

theorem path_of_mem_fill (mem : .ok filled ∈ ctx.fill scope position name slot) :
    filled.path = ctx.path.set position (some slot) := by
  unfold fill at mem
  rcases ctx.place_cases scope position name slot with
    ⟨e, placed⟩ | ⟨placed, -⟩ | ⟨placed, -⟩ | ⟨n, -, -, placed⟩ <;> rw [placed] at mem
  · cases List.mem_singleton.mp mem
  · cases mem
  · cases List.mem_singleton.mp mem
    rfl
  · cases List.mem_singleton.mp mem
    rfl

theorem nodup_fill (ctx : Context) (scope : Scope) (position : Nat) (name : Option String)
    (slot : Slot) : (ctx.fill scope position name slot).Nodup := by
  unfold fill
  split
  · exact List.nodup_singleton _
  · exact .nil
  · exact List.nodup_singleton _

theorem eq_of_mem_fill {other : Context} (mem : .ok filled ∈ ctx.fill scope position name slot)
    (other_mem : .ok other ∈ ctx.fill scope position name slot) : filled = other := by
  unfold fill at mem other_mem
  generalize ctx.place scope position name slot = placed at mem other_mem
  rcases placed with ⟨after, e | _ | receipt⟩
  · cases List.mem_singleton.mp mem
  · cases mem
  · cases List.mem_singleton.mp mem
    cases List.mem_singleton.mp other_mem
    rfl

theorem of_mem_fill (mem : .ok filled ∈ ctx.fill scope position name slot) :
    (∀ n, name = some n → scope.Admits n slot.value) ∧
      ∀ n v, filled.bindings.get? n = some v ↔
        ctx.bindings.get? n = some v ∨ (name = some n ∧ ¬scope.Fixes n ∧ v = slot.value) := by
  unfold fill at mem
  rcases ctx.place_cases scope position name slot with
    ⟨e, placed⟩ | ⟨placed, -⟩ | ⟨placed, allowed⟩ | ⟨n, rfl, verdict, placed⟩ <;> rw [placed] at mem
  · cases List.mem_singleton.mp mem
  · cases mem
  · cases List.mem_singleton.mp mem
    refine ⟨fun n named => ?_, fun n v => ?_⟩
    · by_cases fixed : scope.Fixes n
      · exact (verdict?_of_fixes fixed).mp (allowed n named)
      · exact Scope.admits_of_not_fixes fixed
    · refine (or_iff_left_of_imp ?_).symm
      rintro ⟨named, free, rfl⟩
      exact (verdict?_of_free free).mp (allowed n named)
  · obtain ⟨free, absent⟩ := verdict?_fresh_iff.mp verdict
    cases List.mem_singleton.mp mem
    refine ⟨fun m eq => ?_, fun m v => ?_⟩
    · cases eq
      exact Scope.admits_of_not_fixes free
    · rw [InsertionMap.get?_insert]
      by_cases same : m = n
      · simp [same, absent, free, eq_comm]
      · simp [same, Ne.symm same]

theorem exists_mem_fill (within : position < ctx.path.length)
    (admitted : ∀ n, name = some n → scope.Admits n slot.value)
    (agrees : ∀ n v, name = some n → ¬scope.Fixes n → ctx.bindings.get? n = some v →
      v = slot.value) : ∃ filled, .ok filled ∈ ctx.fill scope position name slot := by
  cases name with
  | none => simp [fill, place, put_within within]
  | some n =>
      unfold fill place
      by_cases fixed : scope.Fixes n
      · have allowed : ctx.verdict? scope n slot = .ok .allowed :=
          (verdict?_of_fixes fixed).mpr (admitted n rfl)
        simp [allowed, put_within within]
      · cases bound : ctx.bindings.get? n with
        | none =>
            have fresh : ctx.verdict? scope n slot = .ok .fresh :=
              (verdict?_fresh_of_free fixed).mpr bound
            simp [fresh, put_within within]
        | some v =>
            have same := agrees n v rfl fixed bound
            have allowed := (verdict?_of_free fixed).mpr (same ▸ bound)
            simp [allowed, put_within within]

end Context

end PropertyGraph
