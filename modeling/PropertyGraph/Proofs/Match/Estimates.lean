import PropertyGraph.Proofs.Graph.Lookup
import PropertyGraph.Proofs.Match.Stopping
import Mathlib.Data.Finset.Card

namespace PropertyGraph

theorem leastBound_eq_some {a b : Option Nat} {n : Nat} (least : leastBound a b = some n) :
    a = some n ∨ b = some n := by
  cases a with
  | none => exact .inr least
  | some a =>
      cases b with
      | none => exact .inl least
      | some b =>
          rcases Nat.le_total a b with first | second
          · rw [leastBound, Nat.min_eq_left first] at least
            exact .inl least
          · rw [leastBound, Nat.min_eq_right second] at least
            exact .inr least

section Bounds

variable {g : Graph} {scope : Scope} {n : Nat}

def PatternSymbol.members : PatternSymbol → List BoundValue
  | .nodes ids => ids.toList.map .node
  | .edges sequences => sequences.toList.map .edges

theorem PatternSymbol.length_members (symbol : PatternSymbol) :
    symbol.members.length = symbol.size := by
  cases symbol with
  | nodes ids => rw [members, List.length_map, size, ids.size_eq_length]
  | edges sequences => rw [members, List.length_map, size, sequences.size_eq_length]

theorem PatternSymbol.mem_members {symbol : PatternSymbol} {value : BoundValue}
    (there : symbol.contains value = true) : value ∈ symbol.members := by
  cases symbol with
  | nodes ids =>
      cases value with
      | node id => exact List.mem_map_of_mem (InsertionSet.contains_iff_mem.mp there)
      | edges ids => cases there
  | edges sequences =>
      cases value with
      | node id => cases there
      | edges ids => exact List.mem_map_of_mem (InsertionSet.contains_iff_mem.mp there)

theorem Scope.exists_values_of_bound? {name : String} (known : scope.bound? name = some n) :
    ∃ values : List BoundValue, values.length ≤ n ∧
      ∀ value, scope.Admits name value → value ∈ values := by
  unfold bound? at known
  cases pinned : scope.pinned.get? name with
  | some value =>
      rw [InsertionMap.contains, pinned, Option.isSome_some, if_pos rfl] at known
      cases known
      refine ⟨[value], Nat.le_refl 1, fun other admitted => ?_⟩
      rw [Admits, pinned] at admitted
      exact List.mem_singleton.mpr admitted
  | none =>
      rw [InsertionMap.contains, pinned, Option.isSome_none, if_neg Bool.false_ne_true] at known
      obtain ⟨symbol, found, rfl⟩ := Option.map_eq_some_iff.mp known
      refine ⟨symbol.members, Nat.le_of_eq symbol.length_members, fun value admitted => ?_⟩
      rw [Admits, pinned] at admitted
      exact PatternSymbol.mem_members (admitted symbol found)

theorem Graph.Sound.exists_values_of_estimateNodes? (h : g.Sound) {filter : NodeFilter}
    (known : g.estimateNodes? filter = .ok (some n)) : ∃ values : List BoundValue,
      values.length ≤ n ∧ ∀ id, g.NodePasses filter id → .node id ∈ values := by
  obtain ⟨candidates, found, bound⟩ := exists_of_map_eq_ok known
  refine ⟨candidates.items.map .node, ?_, fun id passes => ?_⟩
  · rw [List.length_map]
    exact (Graph.nodeCandidates?_bounds found).2 n bound
  · exact List.mem_map_of_mem ((h.nodeCandidates?_covers found).mem id passes)

theorem Graph.Sound.exists_values_of_estimateEdges? (h : g.Sound) {filter : EdgeFilter}
    (known : g.estimateEdges? filter = .ok (some n)) : ∃ values : List BoundValue,
      values.length ≤ n ∧ ∀ id, g.EdgePasses filter id → .edges [id] ∈ values := by
  obtain ⟨candidates, found, bound⟩ := exists_of_map_eq_ok known
  refine ⟨candidates.items.map fun id => .edges [id], ?_, fun id passes => ?_⟩
  · rw [List.length_map]
    exact (Graph.edgeCandidates?_bounds found).2 n bound
  · exact List.mem_map.mpr ⟨id, (h.edgeCandidates?_covers found).mem id passes, rfl⟩

theorem Element.exists_values_of_estimate? (h : g.Sound) {element : Element}
    (known : element.estimate? g scope = .ok (some n)) : ∃ values : List BoundValue,
      values.length ≤ n ∧ ∀ slot, element.Admits g slot →
        (∀ name, element.name = some name → scope.Admits name slot.value) →
        slot.value ∈ values := by
  have of_name (bounded : element.name.bind scope.bound? = some n) :
      ∃ values : List BoundValue, values.length ≤ n ∧ ∀ slot, element.Admits g slot →
        (∀ name, element.name = some name → scope.Admits name slot.value) →
        slot.value ∈ values := by
    obtain ⟨name, named, bounded⟩ := Option.bind_eq_some_iff.mp bounded
    obtain ⟨values, few, all⟩ := Scope.exists_values_of_bound? bounded
    exact ⟨values, few, fun slot _ admitted => all slot.value (admitted name named)⟩
  cases element with
  | node pattern =>
      obtain ⟨size, estimated, least⟩ := exists_of_map_eq_ok known
      rcases leastBound_eq_some least with rfl | bounded
      · obtain ⟨values, few, all⟩ := h.exists_values_of_estimateNodes? estimated
        refine ⟨values, few, fun slot admits _ => ?_⟩
        cases slot with
        | node id => exact all id admits
        | edges ids left right => exact absurd admits not_false
      · exact of_name bounded
  | edge pattern =>
      simp only [estimate?] at known
      split at known
      · rename_i single
        obtain ⟨size, estimated, least⟩ := exists_of_map_eq_ok known
        rcases leastBound_eq_some least with rfl | bounded
        · obtain ⟨values, few, all⟩ := h.exists_values_of_estimateEdges? estimated
          refine ⟨values, few, fun slot admits _ => ?_⟩
          cases slot with
          | node id => exact absurd admits not_false
          | edges ids left right =>
              obtain ⟨id, rfl, edge, found, passes, -⟩ :=
                (EdgePattern.joins_of_isSingleHop single).mp admits
              exact all id ⟨edge, found, passes⟩
        · exact of_name bounded
      · cases known

namespace PathPattern

variable {p : PathPattern} {i : Nat}

theorem estimate?_eq_ok {size : Option Nat} (known : p.estimate? i g scope = .ok size) :
    ∃ element, p.elements[i]? = some element ∧ element.estimate? g scope = .ok size := by
  rw [estimate?, elementAt?, element?_eq] at known
  cases at_i : p.elements[i]? with
  | none =>
      rw [at_i] at known
      cases known
  | some element =>
      rw [at_i] at known
      refine ⟨element, rfl, ?_⟩
      dsimp only at known
      cases estimated : element.estimate? g scope with
      | error e =>
          rw [estimated] at known
          cases known
      | ok size' =>
          rw [estimated] at known
          cases known
          rfl

theorem Matches.exists_slot {row : Row} (is_match : p.Matches g scope row) {element : Element}
    (at_i : p.elements[i]? = some element) {value : BoundValue} (held : row.path[i]? = some value) :
    ∃ slot, element.Admits g slot ∧ slot.value = value ∧
      ∀ name, element.name = some name → scope.Admits name value := by
  obtain ⟨admits, -, values⟩ := laid_of_fits is_match.fits
  rw [← values, List.getElem?_map] at held
  obtain ⟨slot, there, rfl⟩ := Option.map_eq_some_iff.mp held
  refine ⟨slot, (forall₂_iff_getElem?.mp admits).2 i _ _ at_i there, rfl, fun name named => ?_⟩
  refine is_match.agrees.1 (name, slot.value) (mem_entries.mpr ⟨i, element, at_i, named, ?_⟩)
  rw [← values, List.getElem?_map, there]
  rfl

theorem exists_values_of_estimate? (h : g.Sound) (known : p.estimate? i g scope = .ok (some n)) :
    ∃ values : List BoundValue, values.length ≤ n ∧ ∀ row, p.Matches g scope row →
      ∀ value, row.path[i]? = some value → value ∈ values := by
  obtain ⟨element, at_i, known⟩ := estimate?_eq_ok known
  obtain ⟨values, few, all⟩ := Element.exists_values_of_estimate? h known
  refine ⟨values, few, fun row is_match value held => ?_⟩
  obtain ⟨slot, admits, rfl, admitted⟩ := is_match.exists_slot at_i held
  exact all slot admits admitted

end PathPattern

end Bounds

section Fastest

variable {sizes : Nat → Option Nat}

def BestOf (sizes : Nat → Option Nat) (seen : List Nat) : Option (Nat × Nat) → Prop
  | none => ∀ i ∈ seen, sizes i = none
  | some (pivot, least) => pivot ∈ seen ∧ sizes pivot = some least ∧
      ∀ i ∈ seen, ∀ size, sizes i = some size → least ≤ size ∧ (i < pivot → least < size)

theorem BestOf.skip {seen : List Nat} {best : Option (Nat × Nat)} (so_far : BestOf sizes seen best)
    {position : Nat} (unknown : sizes position = none) :
    BestOf sizes (seen ++ [position]) best := by
  cases best with
  | none =>
      refine List.forall_mem_append.mpr ⟨so_far, fun i last => ?_⟩
      rw [List.mem_singleton.mp last, unknown]
  | some pair =>
      obtain ⟨there, known, least⟩ := so_far
      refine ⟨List.mem_append_left _ there, known,
        List.forall_mem_append.mpr ⟨least, fun i last size eq => ?_⟩⟩
      rw [List.mem_singleton.mp last, unknown] at eq
      cases eq

theorem BestOf.weigh {seen : List Nat} {best : Option (Nat × Nat)} (so_far : BestOf sizes seen best)
    {position : Nat} (after : ∀ i ∈ seen, i < position) {size : Nat}
    (known : sizes position = some size) : BestOf sizes (seen ++ [position])
      (if best.all fun pair => size < pair.2 then some (position, size) else best) := by
  have last : position ∈ seen ++ [position] := List.mem_append_right _ (List.mem_singleton_self _)
  have chosen (smaller : ∀ i ∈ seen, ∀ other, sizes i = some other → size < other) :
      BestOf sizes (seen ++ [position]) (some (position, size)) := by
    refine ⟨last, known, List.forall_mem_append.mpr ⟨fun i mem other eq => ?_,
      fun i mem other eq => ?_⟩⟩
    · have less := smaller i mem other eq
      exact ⟨Nat.le_of_lt less, fun _ => less⟩
    · rw [List.mem_singleton.mp mem] at eq ⊢
      rw [known] at eq
      cases eq
      exact ⟨Nat.le_refl size, fun less => absurd less (Nat.lt_irrefl position)⟩
  cases best with
  | none =>
      refine chosen fun i mem other eq => ?_
      rw [so_far i mem] at eq
      cases eq
  | some pair =>
      obtain ⟨there, first, least⟩ := so_far
      simp only [Option.all_some, decide_eq_true_eq]
      split
      · rename_i smaller
        exact chosen fun i mem other eq => Nat.lt_of_lt_of_le smaller (least i mem other eq).1
      · rename_i as_large
        refine ⟨List.mem_append_left _ there, first,
          List.forall_mem_append.mpr ⟨least, fun i mem other eq => ?_⟩⟩
        rw [List.mem_singleton.mp mem] at eq ⊢
        rw [known] at eq
        cases eq
        exact ⟨Nat.le_of_not_lt as_large, fun before => absurd before (Nat.lt_asymm (after _ there))⟩

namespace PathPattern

variable {p : PathPattern} {g : Graph} {scope : Scope}

theorem fastestAmong?_bestOf {positions seen : List Nat} {best : Option (Nat × Nat)}
    (estimated : ∀ i ∈ positions, p.estimate? i g scope = .ok (sizes i))
    (ordered : (seen ++ positions).Pairwise (· < ·)) (so_far : BestOf sizes seen best) :
    ∃ found, p.fastestAmong? g scope best positions = .ok found ∧
      BestOf sizes (seen ++ positions) found := by
  induction positions generalizing seen best with
  | nil => exact ⟨best, rfl, by rwa [List.append_nil]⟩
  | cons position rest ih =>
      obtain ⟨here, estimated⟩ := List.forall_mem_cons.mp estimated
      have after : ∀ i ∈ seen, i < position := fun i mem =>
        (List.pairwise_append.mp ordered).2.2 i mem position List.mem_cons_self
      rw [List.append_cons] at ordered ⊢
      rw [fastestAmong?, here]
      cases known : sizes position with
      | none => exact ih estimated ordered (so_far.skip known)
      | some size => exact ih estimated ordered (so_far.weigh after known)

def FirstLeast (sizes : Nat → Option Nat) (length pivot : Nat) : Prop :=
  (pivot = 0 ∧ ∀ i < length, sizes i = none) ∨
    ∃ least, pivot < length ∧ sizes pivot = some least ∧
      ∀ i < length, ∀ size, sizes i = some size → least ≤ size ∧ (i < pivot → least < size)

theorem fastestPosition?_firstLeast
    (estimated : ∀ i < p.length, p.estimate? i g scope = .ok (sizes i)) :
    ∃ pivot, p.fastestPosition? g scope = .ok pivot ∧ FirstLeast sizes p.length pivot := by
  have unseen : BestOf sizes [] none := fun i mem => by cases mem
  obtain ⟨best, found, is_best⟩ := fastestAmong?_bestOf
    (fun i mem => estimated i (List.mem_range.mp mem)) List.pairwise_lt_range unseen
  refine ⟨(best.map Prod.fst).getD 0, by rw [fastestPosition?, found]; rfl, ?_⟩
  rw [List.nil_append] at is_best
  cases best with
  | none => exact .inl ⟨rfl, fun i within => is_best i (List.mem_range.mpr within)⟩
  | some pair =>
      obtain ⟨there, known, least⟩ := is_best
      exact .inr ⟨pair.2, List.mem_range.mp there, known,
        fun i within => least i (List.mem_range.mpr within)⟩

end PathPattern

end Fastest

namespace PathPattern

theorem estimates_bound_runs {g : Graph} (reachable : g.Reachable) (p : PathPattern)
    (scope : Scope) :
    (∀ i n, p.estimate? i g scope = .ok (some n) →
      ∀ {σ : Type} (options : MatchOptions) (collector : Collector σ) (state : σ),
        ((p.search g scope options collector.traced ([], state)).1.1.filterMap
          (·.path[i]?)).toFinset.card ≤ n) ∧
    ∀ sizes : Nat → Option Nat, (∀ i < p.length, p.estimate? i g scope = .ok (sizes i)) →
      ∃ pivot, p.fastestPosition? g scope = .ok pivot ∧ FirstLeast sizes p.length pivot := by
  refine ⟨fun i n known σ options collector state => ?_, fun sizes => fastestPosition?_firstLeast⟩
  obtain ⟨values, few, all⟩ := exists_values_of_estimate? reachable.sound known
  refine (Finset.card_le_card fun value mem => ?_).trans
    ((List.toFinset_card_le values).trans few)
  obtain ⟨row, called, held⟩ := List.mem_filterMap.mp (List.mem_toFinset.mp mem)
  have is_match := matches_of_mem_rows reachable.sound (ok_mem_of_call called)
  exact List.mem_toFinset.mpr (all row is_match value held)

def typedHop : PathPattern :=
  (ofNode (.named .any "x")).step ((EdgePattern.any .outgoing).withType ⟨"T"⟩) (.named .any "y")

theorem estimates_bound_runs_pair :
    let scope : Scope := ⟨∅, .ofList [("x", .node ⟨0⟩)]⟩
    let sizes : Nat → Option Nat := ([some 1, some 1, none][·]?.join)
    let values := (typedHop.search .pair scope .none Collector.rows.traced ([], [])).1.1.filterMap
      (·.path[1]?)
    Graph.pair.Reachable ∧ typedHop.estimate? 1 .pair scope = .ok (some 1) ∧
      values = [.edges [⟨0⟩]] ∧ values.toFinset.card ≤ 1 ∧
      (∀ i < typedHop.length, typedHop.estimate? i .pair scope = .ok (sizes i)) ∧
      ∃ pivot, typedHop.fastestPosition? .pair scope = .ok pivot ∧
        FirstLeast sizes typedHop.length pivot := by
  intro scope sizes values
  have known : typedHop.estimate? 1 .pair scope = .ok (some 1) := by decide
  have estimated : ∀ i < typedHop.length, typedHop.estimate? i .pair scope = .ok (sizes i) := by
    decide
  obtain ⟨bounds, fastest⟩ := estimates_bound_runs Graph.reachable_pair typedHop scope
  exact ⟨Graph.reachable_pair, known, by decide, bounds 1 1 known .none .rows [], estimated,
    fastest sizes estimated⟩

end PathPattern

end PropertyGraph
