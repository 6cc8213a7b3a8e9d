import PropertyGraph.Proofs.Match.Stopping
import PropertyGraph.Proofs.Match.Underway
import PropertyGraph.Proofs.Pattern.Check

namespace PropertyGraph

namespace PathPattern

variable {p : PathPattern} {g : Graph} {scope : Scope} {pivot : Nat}

section Planning

theorem exists_elementAt? {position : Nat} (bound : position < p.length) :
    ∃ element, p.elementAt? position = .ok element := by
  rw [← length_elements] at bound
  exact ⟨p.elements[position], by rw [elementAt?, element?_eq, List.getElem?_eq_getElem bound]⟩

theorem exists_stepsAt? {positions : List Nat} (within : ∀ i ∈ positions, i < p.length)
    (forward : Bool) : ∃ steps, p.stepsAt? forward positions = .ok steps := by
  induction positions with
  | nil => exact ⟨[], rfl⟩
  | cons position rest ih =>
      obtain ⟨bound, within⟩ := List.forall_mem_cons.mp within
      obtain ⟨element, there⟩ := exists_elementAt? bound
      obtain ⟨steps, later⟩ := ih within
      simp only [stepsAt?, there, later]
      exact ⟨_, rfl⟩

theorem exists_layOut? (bound : pivot < p.length) : ∃ plan, p.layOut? pivot = .ok plan := by
  obtain ⟨element, there⟩ := exists_elementAt? bound
  obtain ⟨right, right_ok⟩ :=
    exists_stepsAt? (fun i (mem : i ∈ p.rightOf pivot) => (mem_rightOf.mp mem).2) true
  obtain ⟨left, left_ok⟩ := exists_stepsAt? (p := p)
    (fun i (mem : i ∈ leftOf pivot) => Nat.lt_trans (mem_leftOf.mp mem) bound) false
  simp only [layOut?, there, right_ok, left_ok]
  exact ⟨_, rfl⟩

theorem incomparable_of_estimate? {position : Nat} (bound : position < p.length) {e : MatchError}
    (failed : p.estimate? position g scope = .error e) : ∃ i, e = .incomparable i := by
  obtain ⟨element, there⟩ := exists_elementAt? bound
  rw [estimate?, there] at failed
  cases estimated : element.estimate? g scope with
  | error i =>
      simp only [estimated] at failed
      cases failed
      exact ⟨i, rfl⟩
  | ok size =>
      simp only [estimated] at failed
      cases failed

theorem fastestAmong?_cases (p : PathPattern) (g : Graph) (scope : Scope) {positions : List Nat}
    (within : ∀ i ∈ positions, i < p.length)
    {best : Option (Nat × Nat)} (best_within : ∀ b, best = some b → b.1 < p.length) :
    (∃ i, p.fastestAmong? g scope best positions = .error (.incomparable i)) ∨
      ∃ found, p.fastestAmong? g scope best positions = .ok found ∧
        ∀ b, found = some b → b.1 < p.length := by
  induction positions generalizing best with
  | nil => exact .inr ⟨best, rfl, best_within⟩
  | cons position rest ih =>
      obtain ⟨bound, within⟩ := List.forall_mem_cons.mp within
      rw [fastestAmong?]
      split
      · rename_i e failed
        obtain ⟨i, rfl⟩ := incomparable_of_estimate? bound failed
        exact .inl ⟨i, rfl⟩
      · exact ih within best_within
      · refine ih within fun b eq => ?_
        split at eq
        · cases eq
          exact bound
        · exact best_within b eq

theorem plan?_cases (p : PathPattern) (g : Graph) (scope : Scope) (pivot : Option Nat) :
    (∃ forced, pivot = some forced ∧ p.length ≤ forced ∧
        p.plan? g scope pivot = .error (.pivotOutside forced)) ∨
      (∃ i, p.plan? g scope pivot = .error (.incomparable i)) ∨
      ∃ plan, p.plan? g scope pivot = .ok plan := by
  cases pivot with
  | some forced =>
      rw [plan?]
      split
      · rename_i bound
        exact .inr (.inr (exists_layOut? bound))
      · rename_i outside
        exact .inl ⟨forced, rfl, Nat.le_of_not_lt outside, rfl⟩
  | none =>
      refine .inr ?_
      rw [plan?, fastestPosition?]
      have within : ∀ i ∈ List.range p.length, i < p.length := fun i mem => List.mem_range.mp mem
      have unknown : ∀ b : Nat × Nat, none = some b → b.1 < p.length := fun b eq => by cases eq
      rcases p.fastestAmong?_cases g scope within unknown with ⟨i, failed⟩ | ⟨found, ok, within⟩
      · rw [failed]
        exact .inl ⟨i, rfl⟩
      · rw [ok]
        refine .inr (exists_layOut? ?_)
        cases found with
        | none =>
            rw [length]
            exact Nat.succ_pos _ |>.trans_le (Nat.le_add_right 1 _)
        | some b => exact within b rfl

theorem check?_of_validate (valid : p.validate = .ok ())
    (kinds : scope.checkKinds? p.elements = .ok ()) : p.check? scope = .ok () := by
  rw [check?, validate_eq_ok_iff.mp valid]
  exact kinds

theorem onlyIncomparable_contexts (valid : p.validate = .ok ())
    (kinds : scope.checkKinds? p.elements = .ok ()) {pivot : Option Nat} {plan : Plan}
    (planned : p.plan? g scope pivot = .ok plan) :
    (contexts g scope plan.steps (.empty p.length)).OnlyIncomparable := by
  obtain ⟨kindOf, names⟩ := exists_kinds valid
  obtain ⟨start, bound, tasks, steps, covers⟩ := plan?_eq_ok planned
  rw [steps]
  exact (covers.underway bound kindOf).onlyIncomparable bound names
    fun element mem n named kind known => Scope.kind_of_checkKinds? kinds mem named known

theorem error_mem_rows (valid : p.validate = .ok ())
    (kinds : scope.checkKinds? p.elements = .ok ()) {pivot : Option Nat} {e : MatchError}
    (failed : .error e ∈ p.rows g scope pivot) :
    (∃ forced, pivot = some forced ∧ p.length ≤ forced ∧ e = .pivotOutside forced) ∨
      ∃ i, e = .incomparable i := by
  rw [rows, check?_of_validate valid kinds] at failed
  rcases p.plan?_cases g scope pivot with ⟨forced, eq, outside, planned⟩ | ⟨i, planned⟩ | ⟨plan, planned⟩
  · rw [planned] at failed
    cases List.mem_singleton.mp failed
    exact .inl ⟨forced, eq, outside, rfl⟩
  · rw [planned] at failed
    cases List.mem_singleton.mp failed
    exact .inr ⟨i, rfl⟩
  · rw [planned] at failed
    exact .inr ((onlyIncomparable_contexts valid kinds planned).map p.rowOf e failed)

end Planning

end PathPattern

namespace PathPattern

theorem run_error_cases {σ : Type} (g : Graph) (p : PathPattern) (symbols : Symbols)
    (options : MatchOptions) (collector : Collector σ) (state : σ) (valid : p.validate = .ok ())
    (kinds : Scope.checkKinds? ⟨symbols, ∅⟩ p.elements = .ok ()) :
    (∀ e, (p.run g symbols options collector state).2 = .error e →
      (∃ forced, options.pivot = some forced ∧ p.length ≤ forced ∧ e = .pivotOutside forced) ∨
      (∃ i, e = .incomparable i) ∨
      ∃ rows row, (p.run g symbols options collector.traced ([], state)).1.1 = rows ++ [row] ∧
        (collector row (collector.after rows state)).2 = .failed e) ∧
    (∀ pivot, pivot < p.length → ∃ plan, p.layOut? pivot = .ok plan) ∧
    ∀ pivot plan, p.plan? g ⟨symbols, ∅⟩ pivot = .ok plan →
      ∀ e, .error e ∈ contexts g ⟨symbols, ∅⟩ plan.steps (.empty p.length) →
        ∃ i, e = .incomparable i := by
  refine ⟨fun e failed => ?_, fun pivot => exists_layOut?,
    fun pivot plan => onlyIncomparable_contexts valid kinds⟩
  rcases Decidable.em (options.limit = some 0) with nothing | positive
  · simp [run, search, check?_of_validate valid kinds, nothing, Outcome.result] at failed
  · rw [p.run_eq_rows_run g symbols options positive] at failed ⊢
    rcases Findings.run_eq_error positive failed with failed | refused
    · rcases error_mem_rows valid kinds failed with outside | incomparable
      · exact .inl outside
      · exact .inr (.inl incomparable)
    · exact .inr (.inr refused)

theorem run_error_cases_pair :
    hop.validate = .ok () ∧ Scope.checkKinds? ⟨∅, ∅⟩ hop.elements = .ok () ∧
      (hop.run .pair ∅ ⟨some 7, none⟩ .count 0).2 = .error (.pivotOutside 7) ∧
      (∀ e, (hop.run .pair ∅ ⟨some 7, none⟩ .count 0).2 = .error e →
        (∃ forced, some 7 = some forced ∧ hop.length ≤ forced ∧ e = .pivotOutside forced) ∨
        (∃ i, e = .incomparable i) ∨
        ∃ rows row, (hop.run .pair ∅ ⟨some 7, none⟩ Collector.count.traced ([], 0)).1.1 =
            rows ++ [row] ∧
          (Collector.count row (Collector.count.after rows 0)).2 = .failed e) ∧
      (∀ pivot, pivot < hop.length → ∃ plan, hop.layOut? pivot = .ok plan) ∧
      ∀ pivot plan, hop.plan? .pair ⟨∅, ∅⟩ pivot = .ok plan →
        ∀ e, .error e ∈ contexts .pair ⟨∅, ∅⟩ plan.steps (.empty hop.length) →
          ∃ i, e = .incomparable i :=
  ⟨by decide, by decide, by decide,
    run_error_cases .pair hop ∅ ⟨some 7, none⟩ .count 0 (by decide) (by decide)⟩

end PathPattern

end PropertyGraph
