import PropertyGraph.Proofs.Match.Assembling
import PropertyGraph.Proofs.Match.Exactness
import PropertyGraph.Proofs.Match.Scoping
import Mathlib.Data.Set.Card

namespace PropertyGraph

namespace Clause

variable {g : Graph} {symbols : Symbols} {parts : List PathPattern} {row : Row}

def rowsFrom (g : Graph) (symbols : Symbols) : List PathPattern → Row → Findings Row
  | [], row => [.ok row]
  | part :: rest, row =>
      (part.rows g ⟨symbols, row.bindings⟩ none).andThen fun found =>
        rowsFrom g symbols rest (row.join found)

def tuplesFrom (g : Graph) (symbols : Symbols) : List PathPattern → Row → List (List Row)
  | [], _ => [[]]
  | part :: rest, row =>
      (part.rows g ⟨symbols, row.bindings⟩ none).found.flatMap fun found =>
        (tuplesFrom g symbols rest (row.join found)).map (part.rowAt symbols found.path :: ·)

theorem search_eq {σ : Type} (collector : Collector σ) (s : σ) :
    search g symbols collector parts row s =
      visitEach collector (rowsFrom g symbols parts row) s := by
  induction parts generalizing row s with
  | nil =>
      rw [search, rowsFrom, visitEach_cons_ok]
      rcases collector row s with ⟨s', _ | _ | e⟩ <;> rfl
  | cons part rest ih =>
      have later : (fun found => search g symbols collector rest (row.join found)) =
          fun found => visitEach collector (rowsFrom g symbols rest (row.join found)) :=
        funext fun found => funext fun s => ih s
      rw [search, rowsFrom, visitEach_andThen, later, MatchOptions.none, PathPattern.search_eq]

theorem run_eq_visitEach {σ : Type} (clause : Clause) (symbols : Symbols)
    (collector : Collector σ) (state : σ)
    (ok : (clause.run g symbols .none collector state).2 = .ok ()) :
    clause.run g symbols .none collector state =
      ((visitEach collector (rowsFrom g symbols clause.parts .empty) state).1,
        (visitEach collector (rowsFrom g symbols clause.parts .empty) state).2.result) := by
  have limited :=
    PathPattern.visitEach_limited collector (rowsFrom g symbols clause.parts .empty) 0 state
  rw [run_eq] at ok ⊢
  by_cases none : clause.parts.isEmpty
  · rw [if_pos none] at ok
    cases ok
  · rw [if_neg none, MatchOptions.none, if_neg (by simp), search_eq, ← limited]

theorem found_rowsFrom (h : g.Sound) (apart : row.Avoids symbols)
    (clean : (rowsFrom g symbols parts row).Clean) :
    (rowsFrom g symbols parts row).found =
      (tuplesFrom g symbols parts row).map (·.foldl Row.join row) := by
  induction parts generalizing row with
  | nil => rfl
  | cons part rest ih =>
      rw [rowsFrom, tuplesFrom, Findings.found_andThen, List.map_flatMap]
      refine List.flatMap_congr fun found mem => ?_
      have mem := Findings.mem_found.mp mem
      have is_match := (PathPattern.mem_rows h clean.of_andThen).mp mem
      rw [ih (is_match.join_avoids apart) (clean.each mem), List.map_map]
      refine List.map_congr_left fun tuple _ => ?_
      rw [Function.comp_apply, List.foldl_cons, is_match.join_eq apart]

theorem mem_tuplesFrom (h : g.Sound) (apart : row.Avoids symbols)
    (clean : (rowsFrom g symbols parts row).Clean) {tuple : List Row} :
    tuple ∈ tuplesFrom g symbols parts row ↔
      List.Forall₂ (fun part found => part.Matches g ⟨symbols, ∅⟩ found) parts tuple ∧
        (∀ found ∈ tuple, row.bindings.Agree found.bindings) ∧
          tuple.Pairwise fun a b => a.bindings.Agree b.bindings := by
  -- The row grows with each part, and what it binds is pinned for the parts that are left.
  induction parts generalizing row tuple with
  | nil =>
      rw [tuplesFrom, List.mem_singleton]
      constructor
      · rintro rfl
        exact ⟨.nil, by simp, .nil⟩
      · rintro ⟨⟨⟩, -, -⟩
        rfl
  | cons part rest ih =>
      rw [tuplesFrom, List.mem_flatMap]
      constructor
      · rintro ⟨found, mem, there⟩
        obtain ⟨tail, mem_tail, rfl⟩ := List.mem_map.mp there
        have mem := Findings.mem_found.mp mem
        have is_match := (PathPattern.mem_rows h clean.of_andThen).mp mem
        obtain ⟨alone, agree, -⟩ := (PathPattern.matches_pinned apart).mp is_match
        obtain ⟨each, joined, pairwise⟩ :=
          (ih (is_match.join_avoids apart) (clean.each mem)).mp mem_tail
        have both {other : Row} (mem : other ∈ tail) :=
          (is_match.join_agree apart other.bindings).mp (joined other mem)
        refine ⟨.cons alone each, ?_, ?_⟩
        · exact List.forall_mem_cons.mpr ⟨agree, fun other mem => (both mem).1⟩
        · exact List.pairwise_cons.mpr ⟨fun other mem => (both mem).2, pairwise⟩
      · rintro ⟨each, agrees, pairwise⟩
        cases each with
        | @cons _ head _ tail alone each =>
            -- Pinned, the part is found with the same path but binds only what is not yet bound.
            obtain ⟨agree, agrees⟩ := List.forall_mem_cons.mp agrees
            obtain ⟨head_agrees, pairwise⟩ := List.pairwise_cons.mp pairwise
            have head_eq := alone.eq_rowAt
            have is_match : part.Matches g ⟨symbols, row.bindings⟩
                ⟨head.path, Scope.bound ⟨symbols, row.bindings⟩ (part.entries head.path)⟩ :=
              (PathPattern.matches_pinned apart).mpr ⟨head_eq ▸ alone, head_eq ▸ agree, rfl⟩
            have mem := (PathPattern.mem_rows h clean.of_andThen).mpr is_match
            refine ⟨_, Findings.mem_found.mpr mem, List.mem_map.mpr ⟨tail, ?_, by rw [← head_eq]⟩⟩
            refine (ih (is_match.join_avoids apart) (clean.each mem)).mpr ⟨each, ?_, pairwise⟩
            intro other mem_other
            rw [is_match.join_agree apart, ← head_eq]
            exact ⟨agrees other mem_other, head_agrees other mem_other⟩

theorem nodup_tuplesFrom (h : g.Sound) (clean : (rowsFrom g symbols parts row).Clean) :
    (tuplesFrom g symbols parts row).Nodup := by
  induction parts generalizing row with
  | nil => exact List.nodup_singleton _
  | cons part rest ih =>
      have clean_part : (part.rows g ⟨symbols, row.bindings⟩ none).Clean := clean.of_andThen
      rw [tuplesFrom, List.nodup_flatMap]
      constructor
      · intro found mem
        refine (ih (clean.each (Findings.mem_found.mp mem))).map fun a b eq => ?_
        exact (List.cons.inj eq).2
      · have distinct := Findings.nodup_found (PathPattern.nodup_rows h clean_part)
        refine distinct.imp_of_mem fun {a b} mem_a mem_b ne => ?_
        have match_a := (PathPattern.mem_rows h clean_part).mp (Findings.mem_found.mp mem_a)
        have match_b := (PathPattern.mem_rows h clean_part).mp (Findings.mem_found.mp mem_b)
        intro tuple from_a from_b
        obtain ⟨tail, -, rfl⟩ := List.mem_map.mp from_a
        obtain ⟨other, -, eq⟩ := List.mem_map.mp from_b
        have heads := (List.cons.inj eq).1
        exact ne (match_a.ext match_b (congrArg Row.path heads).symm)

theorem foldl_join (path : List BoundValue) (entries : List (String × BoundValue))
    (tuple : List Row) : tuple.foldl Row.join ⟨path, .ofList entries⟩ =
      ⟨path ++ tuple.flatMap Row.path,
        .ofList (entries ++ tuple.flatMap fun row => row.bindings.entries)⟩ := by
  induction tuple generalizing path entries with
  | nil => simp
  | cons found rest ih =>
      rw [List.foldl_cons, Row.join, InsertionMap.ofList_union, ih]
      simp only [List.flatMap_cons, List.append_assoc]

theorem foldl_join_empty (tuple : List Row) : tuple.foldl Row.join .empty = .joined tuple :=
  foldl_join [] [] tuple

theorem mem_names_of_get? {part : PathPattern} (is_match : part.Matches g ⟨symbols, ∅⟩ row)
    {n : String} {v : BoundValue} (at_name : row.bindings.get? n = some v) :
    n ∈ part.names ∧ n ∉ symbols := by
  rw [is_match.bindings] at at_name
  obtain ⟨mem, free⟩ := is_match.agrees.get?_bound.mp at_name
  obtain ⟨i, element, at_element, named, -⟩ := PathPattern.mem_entries.mp mem
  refine ⟨?_, fun symbol => free (Scope.fixes_symbols.mpr symbol)⟩
  rw [PathPattern.names, List.mem_eraseDups]
  exact List.mem_filterMap.mpr ⟨element, List.mem_of_getElem? at_element, named⟩

theorem exists_of_forall₂ {α β : Type} {R : α → β → Prop} {as : List α} {bs : List β}
    (all : List.Forall₂ R as bs) {b : β} (mem : b ∈ bs) : ∃ a ∈ as, R a b := by
  induction all with
  | nil => cases mem
  | cons related _ ih =>
      rcases List.mem_cons.mp mem with rfl | mem
      · exact ⟨_, List.mem_cons_self, related⟩
      · obtain ⟨a, mem, related⟩ := ih mem
        exact ⟨a, List.mem_cons_of_mem _ mem, related⟩

theorem pairwise_agree {tuple : List Row}
    (unshared : parts.Pairwise fun a b => ∀ n ∈ a.names, n ∈ b.names → n ∈ symbols)
    (each : List.Forall₂ (fun part found => part.Matches g ⟨symbols, ∅⟩ found) parts tuple) :
    tuple.Pairwise fun a b => a.bindings.Agree b.bindings := by
  induction each with
  | nil => exact .nil
  | @cons part found rest tail is_match each ih =>
      obtain ⟨apart, unshared⟩ := List.pairwise_cons.mp unshared
      refine List.pairwise_cons.mpr ⟨fun other mem n v w at_found at_other => ?_, ih unshared⟩
      obtain ⟨part', mem_part, other_match⟩ := exists_of_forall₂ each mem
      obtain ⟨named, free⟩ := mem_names_of_get? is_match at_found
      obtain ⟨other_named, -⟩ := mem_names_of_get? other_match at_other
      exact absurd (apart part' mem_part n named other_named) free

theorem ncard_forall₂ {α β : Type} (choices : α → Set β) (l : List α) :
    {tuple | List.Forall₂ (fun a b => b ∈ choices a) l tuple}.ncard =
      (l.map fun a => (choices a).ncard).prod := by
  induction l with
  | nil => simp
  | cons a rest ih =>
      have split : {tuple | List.Forall₂ (fun a b => b ∈ choices a) (a :: rest) tuple} =
          (fun pair : β × List β => pair.1 :: pair.2) ''
            (choices a ×ˢ {tuple | List.Forall₂ (fun a b => b ∈ choices a) rest tuple}) := by
        ext tuple
        constructor
        · intro all
          cases all with
          | cons chosen each => exact ⟨(_, _), ⟨chosen, each⟩, rfl⟩
        · rintro ⟨⟨b, tail⟩, ⟨chosen, each⟩, rfl⟩
          exact .cons chosen each
      have injective : (fun pair : β × List β => pair.1 :: pair.2).Injective := by
        rintro ⟨b, tail⟩ ⟨c, other⟩ eq
        cases eq
        rfl
      rw [split, Set.ncard_image_of_injective _ injective, Set.ncard_prod, ih, List.map_cons,
        List.prod_cons]

theorem empty_avoids (symbols : Symbols) : Row.empty.Avoids symbols := fun n mem => by cases mem

theorem mem_tuplesFrom_empty (h : g.Sound) {clause : Clause}
    (clean : (rowsFrom g symbols clause.parts .empty).Clean) {tuple : List Row} :
    tuple ∈ tuplesFrom g symbols clause.parts .empty ↔ clause.Matches g symbols tuple := by
  rw [mem_tuplesFrom h (empty_avoids symbols) clean]
  constructor
  · rintro ⟨each, -, agree⟩
    exact ⟨each, agree⟩
  · rintro ⟨each, agree⟩
    refine ⟨each, fun found _ n v w at_name => ?_, agree⟩
    cases at_name

theorem length_tuplesFrom_empty (h : g.Sound) {clause : Clause}
    (clean : (rowsFrom g symbols clause.parts .empty).Clean)
    (unshared : clause.parts.Pairwise fun a b => ∀ n ∈ a.names, n ∈ b.names → n ∈ symbols) :
    (tuplesFrom g symbols clause.parts .empty).length =
      (clause.parts.map fun part => {row | part.Matches g ⟨symbols, ∅⟩ row}.ncard).prod := by
  have all : (↑(tuplesFrom g symbols clause.parts .empty).toFinset : Set (List Row)) =
      {tuple | List.Forall₂ (fun part row => part.Matches g ⟨symbols, ∅⟩ row) clause.parts
        tuple} := by
    ext tuple
    rw [Finset.mem_coe, List.mem_toFinset, mem_tuplesFrom_empty h clean]
    constructor
    · exact fun is_match => is_match.each
    · exact fun each => ⟨each, pairwise_agree unshared each⟩
  rw [← List.toFinset_card_of_nodup (nodup_tuplesFrom h clean), ← Set.ncard_coe_finset, all]
  exact ncard_forall₂ (fun part => {row | part.Matches g ⟨symbols, ∅⟩ row}) clause.parts

theorem run_found {σ : Type} (h : g.Sound) {clause : Clause} {symbols : Symbols}
    {collector : Collector σ} (goes_on : ∀ row s, (collector row s).2 = .next) {state : σ}
    (ok : (clause.run g symbols .none collector state).2 = .ok ()) :
    (rowsFrom g symbols clause.parts .empty).Clean ∧
      (clause.run g symbols .none collector state).1 =
        ((tuplesFrom g symbols clause.parts .empty).map Row.joined).foldl
          (fun s row => (collector row s).1) state := by
  have run_eq := clause.run_eq_visitEach symbols collector state ok
  rw [run_eq] at ok ⊢
  have clean : (rowsFrom g symbols clause.parts .empty).Clean := by
    refine clean_of_visitEach goes_on (s := state) fun e failed => ?_
    rw [failed] at ok
    cases ok
  refine ⟨clean, ?_⟩
  rw [visitEach_next goes_on clean, found_rowsFrom h (empty_avoids symbols) clean]
  simp only [foldl_join_empty]

theorem run_tuples {σ : Type} (h : g.Sound) {clause : Clause} {symbols : Symbols}
    {collector : Collector σ} (goes_on : ∀ row s, (collector row s).2 = .next) {state : σ}
    (ok : (clause.run g symbols .none collector state).2 = .ok ()) :
    ∃ tuples : List (List Row), tuples.Nodup ∧
      (∀ tuple, tuple ∈ tuples ↔ clause.Matches g symbols tuple) ∧
      (clause.run g symbols .none collector state).1 =
        (tuples.map Row.joined).foldl (fun s row => (collector row s).1) state := by
  obtain ⟨clean, kept⟩ := run_found h goes_on ok
  exact ⟨tuplesFrom g symbols clause.parts .empty, nodup_tuplesFrom h clean,
    fun tuple => mem_tuplesFrom_empty h clean, kept⟩

theorem run_stores_tuples {σ : Type} (reachable : g.Reachable) (clause : Clause)
    (symbols : Symbols) (collector : Collector σ)
    (goes_on : ∀ row s, (collector row s).2 = .next) (state : σ)
    (ok : (clause.run g symbols .none collector state).2 = .ok ()) :
    ∃ tuples : List (List Row), tuples.Nodup ∧
      (∀ tuple, tuple ∈ tuples ↔ clause.Matches g symbols tuple) ∧
      (clause.run g symbols .none collector state).1 =
        tuples.foldl (fun s tuple => (collector (.joined tuple) s).1) state ∧
      (clause.parts.Pairwise (fun a b => ∀ n ∈ a.names, n ∈ b.names → n ∈ symbols) →
        tuples.length =
          (clause.parts.map fun part => {row | part.Matches g ⟨symbols, ∅⟩ row}.ncard).prod) := by
  obtain ⟨clean, kept⟩ := run_found reachable.sound goes_on ok
  rw [List.foldl_map] at kept
  exact ⟨tuplesFrom g symbols clause.parts .empty, nodup_tuplesFrom reachable.sound clean,
    fun tuple => mem_tuplesFrom_empty reachable.sound clean, kept,
    length_tuplesFrom_empty reachable.sound clean⟩

def hopBeside : Clause := ⟨[.hop, .ofNode (.named .any "z")]⟩

theorem run_stores_tuples_pair :
    Graph.pair.Reachable ∧ (∀ row s, (Collector.rows row s).2 = .next) ∧
      (hopBeside.run .pair ∅ .none Collector.rows []).2 = .ok () ∧
      (hopBeside.run .pair ∅ .none Collector.rows []).1.map Row.path =
        [[.node ⟨0⟩, .edges [⟨0⟩], .node ⟨1⟩, .node ⟨0⟩],
          [.node ⟨0⟩, .edges [⟨0⟩], .node ⟨1⟩, .node ⟨1⟩],
          [.node ⟨1⟩, .edges [⟨0⟩], .node ⟨0⟩, .node ⟨0⟩],
          [.node ⟨1⟩, .edges [⟨0⟩], .node ⟨0⟩, .node ⟨1⟩]] ∧
      ∃ tuples : List (List Row), tuples.Nodup ∧
        (∀ tuple, tuple ∈ tuples ↔ hopBeside.Matches .pair ∅ tuple) ∧
        (hopBeside.run .pair ∅ .none Collector.rows []).1 =
          tuples.foldl (fun s tuple => (Collector.rows (.joined tuple) s).1) [] ∧
        tuples.length =
          (hopBeside.parts.map fun part => {row | part.Matches .pair ⟨∅, ∅⟩ row}.ncard).prod := by
  have ok : (hopBeside.run .pair ∅ .none Collector.rows []).2 = .ok () := by decide +kernel
  have unshared : hopBeside.parts.Pairwise fun a b =>
      ∀ n ∈ a.names, n ∈ b.names → n ∈ (∅ : Symbols) := by decide
  obtain ⟨tuples, distinct, exact_tuples, kept, sized⟩ := run_stores_tuples Graph.reachable_pair
    hopBeside ∅ Collector.rows (fun _ _ => rfl) [] ok
  exact ⟨Graph.reachable_pair, fun _ _ => rfl, ok, by decide +kernel, tuples, distinct,
    exact_tuples, kept, sized unshared⟩

end Clause

end PropertyGraph
