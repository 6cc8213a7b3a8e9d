import PropertyGraph.Proofs.Match.Clauses
import PropertyGraph.Proofs.Match.Restriction

namespace PropertyGraph

namespace PathPattern

def upTo (p : PathPattern) (i : Nat) : PathPattern := ⟨p.start, p.segments.take (i / 2)⟩

def onFrom (p : PathPattern) (i : Nat) (node : NodePattern) : PathPattern :=
  ⟨node, p.segments.drop (i / 2)⟩

def halves (p : PathPattern) (i : Nat) (node : NodePattern) : Clause :=
  ⟨[p.upTo i, p.onFrom i node]⟩

/-- The path has a node at the position; the halves end and begin there. -/
inductive Cut : PathPattern → Nat → PathPattern → PathPattern → Prop
  | here (p : PathPattern) : Cut p 0 ⟨p.start, []⟩ p
  | later {segment : Segment} {segments before : List Segment} {i : Nat} {right : PathPattern}
      (start : NodePattern) : Cut ⟨segment.node, segments⟩ i ⟨segment.node, before⟩ right →
        Cut ⟨start, segment :: segments⟩ (i + 2) ⟨start, segment :: before⟩ right

section Halves

variable {g : Graph} {p left right : PathPattern} {i : Nat} {path : List BoundValue}

theorem cut_of_node {node : NodePattern} (at_i : p.element? i = some (.node node)) :
    p.Cut i (p.upTo i) (p.onFrom i node) := by
  rw [element?_eq] at at_i
  obtain ⟨start, segments⟩ := p
  induction segments generalizing start i with
  | nil =>
      cases i with
      | zero =>
          cases at_i
          exact .here _
      | succ i => cases at_i
  | cons segment segments ih =>
      rw [elements_cons] at at_i
      match i with
      | 0 =>
          cases at_i
          exact .here _
      | 1 => cases at_i
      | i + 2 =>
          have half : (i + 2) / 2 = i / 2 + 1 := by omega
          have rest := Cut.later start (ih segment.node at_i)
          simpa only [upTo, onFrom, half, List.take_succ_cons, List.drop_succ_cons] using rest

theorem Cut.elements_left (cut : p.Cut i left right) :
    left.elements = p.elements.take (i + 1) := by
  induction cut with
  | here p => rfl
  | later start _ ih =>
      rw [elements_cons, elements_cons, ih]
      rfl

theorem Cut.elements_right (cut : p.Cut i left right) : right.elements = p.elements.drop i := by
  induction cut with
  | here p => rfl
  | later start _ ih =>
      rw [elements_cons, ih]
      rfl

theorem Cut.fits_iff (cut : p.Cut i left right) :
    p.Fits g path ↔ left.Fits g (path.take (i + 1)) ∧ right.Fits g (path.drop i) := by
  induction cut generalizing path with
  | here p =>
      match path with
      | [] => simp [Fits]
      | .edges _ :: _ => simp [Fits]
      | .node id :: rest => simp [Fits, Continues]
  | later start _ ih =>
      match path with
      -- Values that no segment begins with fit neither the pattern nor its left half.
      | [] | [.node _] | .edges _ :: _ | .node _ :: .node _ :: _ | [.node _, .edges _]
      | .node _ :: .edges _ :: .edges _ :: _ => simp [Fits, Continues]
      | .node id :: .edges ids :: .node far :: rest =>
          have later := @ih (.node far :: rest)
          simp only [Fits, Continues, List.take_succ_cons, List.drop_succ_cons] at later ⊢
          tauto

theorem exists_filterMap_cut {α β : Type} {f : α → Option β} {l : List α} {i : Nat} {a : α} {b : β}
    (at_i : l[i]? = some a) (value : f a = some b) : ∃ before after,
      l.filterMap f = before ++ b :: after ∧ (l.take (i + 1)).filterMap f = before ++ [b] ∧
        (l.drop i).filterMap f = b :: after := by
  have upto : l.take (i + 1) = l.take i ++ [a] := by
    rw [List.take_add_one, at_i, Option.toList_some]
  have onward : l.drop i = a :: l.drop (i + 1) := by
    rw [List.drop_eq_getElem?_toList_append, at_i, Option.toList_some, List.singleton_append]
  refine ⟨(l.take i).filterMap f, (l.drop (i + 1)).filterMap f, ?_, ?_, ?_⟩
  · rw [← List.filterMap_cons_some value, ← List.filterMap_append, ← onward, List.take_append_drop]
  · rw [upto, List.filterMap_append, List.filterMap_cons_some value, List.filterMap_nil]
  · rw [onward, List.filterMap_cons_some value]

theorem Fits.length_eq (fits : p.Fits g path) : path.length = p.length := by
  obtain ⟨admits, -, values⟩ := laid_of_fits fits
  rw [← values, List.length_map, ← admits.length_eq, length_elements]

theorem Cut.exists_entries (cut : p.Cut i left right) {n : String}
    (named : p.elements[i]?.bind Element.name = some n) {v : BoundValue} (at_i : path[i]? = some v) :
    ∃ before after, p.entries path = before ++ (n, v) :: after ∧
      left.entries (path.take (i + 1)) = before ++ [(n, v)] ∧
      right.entries (path.drop i) = (n, v) :: after := by
  obtain ⟨element, at_element, name⟩ := Option.bind_eq_some_iff.mp named
  have at_pair : (p.elements.zip path)[i]? = some (element, v) :=
    List.getElem?_zip_eq_some.mpr ⟨at_element, at_i⟩
  simp only [entries, cut.elements_left, cut.elements_right, List.zip, ← List.take_zipWith,
    ← List.drop_zipWith]
  exact exists_filterMap_cut at_pair (by simp [name])

end Halves

end PathPattern

namespace Scope

variable {scope : Scope} {entries others : List (String × BoundValue)}

theorem Agrees.congr (same : ∀ entry, entry ∈ entries ↔ entry ∈ others) :
    scope.Agrees entries ↔ scope.Agrees others := by
  simp only [Agrees, same]

theorem agrees_append : scope.Agrees (entries ++ others) ↔ scope.Agrees entries ∧
    scope.Agrees others ∧ (scope.bound entries).Agree (scope.bound others) := by
  constructor
  · intro agrees
    have left : scope.Agrees entries :=
      ⟨fun e mem => agrees.1 e (List.mem_append_left _ mem), fun a mem_a b mem_b =>
        agrees.2 a (List.mem_append_left _ mem_a) b (List.mem_append_left _ mem_b)⟩
    have right : scope.Agrees others :=
      ⟨fun e mem => agrees.1 e (List.mem_append_right _ mem), fun a mem_a b mem_b =>
        agrees.2 a (List.mem_append_right _ mem_a) b (List.mem_append_right _ mem_b)⟩
    refine ⟨left, right, fun n v w at_left at_right => ?_⟩
    obtain ⟨mem_v, free⟩ := left.get?_bound.mp at_left
    obtain ⟨mem_w, -⟩ := right.get?_bound.mp at_right
    exact agrees.2 _ (List.mem_append_left _ mem_v) _ (List.mem_append_right _ mem_w) rfl free
  · rintro ⟨left, right, agree⟩
    have across {n : String} {v w : BoundValue} (mem_v : (n, v) ∈ entries)
        (mem_w : (n, w) ∈ others) (free : ¬scope.Fixes n) : v = w :=
      agree n v w (left.get?_bound.mpr ⟨mem_v, free⟩) (right.get?_bound.mpr ⟨mem_w, free⟩)
    refine ⟨fun e mem => ?_, ?_⟩
    · rcases List.mem_append.mp mem with mem | mem
      · exact left.1 e mem
      · exact right.1 e mem
    · rintro ⟨n, v⟩ mem_v ⟨m, w⟩ mem_w rfl free
      rcases List.mem_append.mp mem_v with mem_v | mem_v <;>
        rcases List.mem_append.mp mem_w with mem_w | mem_w
      · exact left.2 _ mem_v _ mem_w rfl free
      · exact across mem_v mem_w free
      · exact (across mem_w mem_v free).symm
      · exact right.2 _ mem_v _ mem_w rfl free

theorem union_bound_bound (scope : Scope) (entries others : List (String × BoundValue)) :
    (scope.bound entries).union (scope.bound others) = scope.bound (entries ++ others) := by
  rw [bound, bound, InsertionMap.union_ofList, bound, List.filter_append]

theorem bound_repeat (scope : Scope) (before after : List (String × BoundValue))
    (entry : String × BoundValue) :
    scope.bound (before ++ entry :: entry :: after) = scope.bound (before ++ entry :: after) := by
  rw [bound, bound, List.filter_append, List.filter_append]
  by_cases free : scope.Fixes entry.1
  · simp [free]
  · simp [free, InsertionMap.ofList, InsertionMap.insert_insert]

end Scope

def Row.repeatedAt (row : Row) (i : Nat) : Row :=
  { row with path := row.path.take (i + 1) ++ row.path.drop i }

theorem Row.joined_pair (a b : Row) : Row.joined [a, b] = a.join b := by
  rw [← Clause.foldl_join_empty, List.foldl_cons, List.foldl_cons, List.foldl_nil, Row.join,
    Row.empty, Row.join, InsertionMap.empty_union, List.nil_append]
  rfl

theorem Clause.matches_pair {g : Graph} {symbols : Symbols} {left right : PathPattern}
    {tuple : List Row} : Clause.Matches ⟨[left, right]⟩ g symbols tuple ↔ ∃ a b, tuple = [a, b] ∧
      left.Matches g ⟨symbols, ∅⟩ a ∧ right.Matches g ⟨symbols, ∅⟩ b ∧
        a.bindings.Agree b.bindings := by
  constructor
  · rintro ⟨each, agree⟩
    obtain ⟨a, others, is_a, later, rfl⟩ := List.forall₂_cons_left_iff.mp each
    obtain ⟨b, others, is_b, none_left, rfl⟩ := List.forall₂_cons_left_iff.mp later
    cases none_left
    exact ⟨a, b, rfl, is_a, is_b, by simpa using agree⟩
  · rintro ⟨a, b, rfl, is_a, is_b, agree⟩
    exact ⟨.cons is_a (.cons is_b .nil), by simpa using agree⟩

namespace PathPattern

section Rows

variable {g : Graph} {symbols : Symbols} {p left right : PathPattern} {i : Nat} {n : String}
variable {path : List BoundValue}

theorem Cut.lt_length (cut : p.Cut i left right) : i < p.length := by
  have first : right.elements ≠ [] := by simp [elements]
  rw [cut.elements_right, List.ne_nil_iff_length_pos, List.length_drop, length_elements] at first
  omega

theorem Cut.matches_iff (cut : p.Cut i left right)
    (named : p.elements[i]?.bind Element.name = some n) :
    p.Matches g ⟨symbols, ∅⟩ (p.rowAt symbols path) ↔
      left.Matches g ⟨symbols, ∅⟩ (left.rowAt symbols (path.take (i + 1))) ∧
        right.Matches g ⟨symbols, ∅⟩ (right.rowAt symbols (path.drop i)) ∧
          (left.rowAt symbols (path.take (i + 1))).bindings.Agree
            (right.rowAt symbols (path.drop i)).bindings := by
  have agrees (fits : p.Fits g path) : Scope.Agrees ⟨symbols, ∅⟩ (p.entries path) ↔
      Scope.Agrees ⟨symbols, ∅⟩ (left.entries (path.take (i + 1)) ++
        right.entries (path.drop i)) := by
    have at_i := List.getElem?_eq_getElem (fits.length_eq ▸ cut.lt_length)
    obtain ⟨before, after, whole, at_left, at_right⟩ := cut.exists_entries named at_i
    rw [whole, at_left, at_right]
    exact Scope.Agrees.congr fun entry => by simp
  simp only [matches_rowAt]
  constructor
  · rintro ⟨fits, agree⟩
    obtain ⟨left_agrees, right_agrees, both⟩ := Scope.agrees_append.mp ((agrees fits).mp agree)
    obtain ⟨left_fits, right_fits⟩ := cut.fits_iff.mp fits
    exact ⟨⟨left_fits, left_agrees⟩, ⟨right_fits, right_agrees⟩, both⟩
  · rintro ⟨⟨left_fits, left_agrees⟩, ⟨right_fits, right_agrees⟩, both⟩
    have fits := cut.fits_iff.mpr ⟨left_fits, right_fits⟩
    exact ⟨fits, (agrees fits).mpr (Scope.agrees_append.mpr ⟨left_agrees, right_agrees, both⟩)⟩

theorem Cut.join_eq (cut : p.Cut i left right)
    (named : p.elements[i]?.bind Element.name = some n) (full : i < path.length) :
    (left.rowAt symbols (path.take (i + 1))).join (right.rowAt symbols (path.drop i)) =
      (p.rowAt symbols path).repeatedAt i := by
  obtain ⟨before, after, whole, at_left, at_right⟩ :=
    cut.exists_entries named (List.getElem?_eq_getElem full)
  rw [Row.join, rowAt, rowAt, Scope.union_bound_bound, at_left, at_right, List.append_assoc,
    List.singleton_append, Scope.bound_repeat, ← whole]
  rfl

theorem exists_overlap {a b : List BoundValue} (full : a.length = i + 1) (filled : b ≠ [])
    (meet : (a ++ b)[i]? = (a ++ b)[i + 1]?) :
    ∃ path : List BoundValue, path.take (i + 1) = a ∧ path.drop i = b := by
  obtain ⟨v, rest, rfl⟩ := List.exists_cons_of_ne_nil filled
  obtain ⟨init, last, rfl⟩ := (List.eq_nil_or_concat a).resolve_left
    (List.ne_nil_of_length_eq_add_one full)
  have same : init.length = i := by simpa using full
  subst same
  have value : last = v := by simpa using meet
  subst value
  exact ⟨init ++ last :: rest, by simp [List.take_append], by simp⟩

theorem repeated_meets {row : Row} (full : i < row.path.length) :
    (row.repeatedAt i).path[i]? = (row.repeatedAt i).path[i + 1]? := by
  have within : (row.path.take (i + 1)).length = i + 1 := List.length_take_of_le full
  rw [Row.repeatedAt, List.getElem?_append_left (by omega), List.getElem?_append_right (by omega),
    within, Nat.sub_self, List.getElem?_take_of_lt (Nat.lt_succ_self i), List.getElem?_drop,
    Nat.add_zero]

theorem repeated_inj {row other : Row}
    (same : row.path.length = other.path.length)
    (eq : (row.repeatedAt i).path = (other.repeatedAt i).path) : row.path = other.path := by
  obtain ⟨upto, onward⟩ := List.append_inj eq (by simp [same])
  have behind := congrArg (List.drop 1) onward
  rw [List.drop_drop, List.drop_drop] at behind
  rw [← List.take_append_drop (i + 1) row.path, ← List.take_append_drop (i + 1) other.path, upto,
    behind]

theorem Cut.length_left (cut : p.Cut i left right) : left.length = i + 1 := by
  rw [← length_elements, cut.elements_left, List.length_take_of_le]
  rw [length_elements]
  exact cut.lt_length

theorem Cut.mem_repeated (cut : p.Cut i left right)
    (named : p.elements[i]?.bind Element.name = some n) {rows : List Row} {tuples : List (List Row)}
    (exact_rows : ∀ row, row ∈ rows ↔ p.Matches g ⟨symbols, ∅⟩ row)
    (exact_tuples : ∀ tuple, tuple ∈ tuples ↔ Clause.Matches ⟨[left, right]⟩ g symbols tuple)
    (row : Row) : row ∈ rows.map (·.repeatedAt i) ↔
      row ∈ (tuples.map Row.joined).filter fun row => row.path[i]? = row.path[i + 1]? := by
  rw [List.mem_map, List.mem_filter, List.mem_map, decide_eq_true_eq]
  constructor
  · rintro ⟨whole, mem, rfl⟩
    have is_match := (exact_rows whole).mp mem
    have full : i < whole.path.length := is_match.fits.length_eq ▸ cut.lt_length
    obtain ⟨is_left, is_right, agree⟩ := (cut.matches_iff named).mp (is_match.eq_rowAt ▸ is_match)
    refine ⟨⟨_, (exact_tuples _).mpr (Clause.matches_pair.mpr
      ⟨_, _, rfl, is_left, is_right, agree⟩), ?_⟩, repeated_meets full⟩
    rw [Row.joined_pair, cut.join_eq named full, ← is_match.eq_rowAt]
  · rintro ⟨⟨tuple, mem, rfl⟩, meet⟩
    obtain ⟨a, b, rfl, is_left, is_right, agree⟩ :=
      Clause.matches_pair.mp ((exact_tuples tuple).mp mem)
    rw [Row.joined_pair] at meet ⊢
    -- Paths that hold one value at the cut overlap there, and so are two parts of one path.
    have full : a.path.length = i + 1 := is_left.fits.length_eq.trans cut.length_left
    have filled : b.path ≠ [] := fun empty => by
      have fits := is_right.fits
      rw [empty] at fits
      exact fits
    obtain ⟨path, at_a, at_b⟩ := exists_overlap full filled meet
    have left_eq := is_left.eq_rowAt
    have right_eq := is_right.eq_rowAt
    rw [← at_a] at left_eq
    rw [← at_b] at right_eq
    have is_match := (cut.matches_iff named).mpr
      ⟨left_eq ▸ is_left, right_eq ▸ is_right, left_eq ▸ right_eq ▸ agree⟩
    refine ⟨_, (exact_rows _).mpr is_match, ?_⟩
    rw [left_eq, right_eq, cut.join_eq named (is_match.fits.length_eq ▸ cut.lt_length)]

theorem nodup_repeated {rows : List Row} (distinct : rows.Nodup)
    (exact_rows : ∀ row, row ∈ rows ↔ p.Matches g ⟨symbols, ∅⟩ row) :
    (rows.map (·.repeatedAt i)).Nodup :=
  distinct.map_on fun a mem_a b mem_b eq => by
    have match_a := (exact_rows a).mp mem_a
    have match_b := (exact_rows b).mp mem_b
    have same := match_a.fits.length_eq.trans match_b.fits.length_eq.symm
    exact match_a.ext match_b (repeated_inj same (congrArg Row.path eq))

theorem nodup_joined {tuples : List (List Row)} (distinct : tuples.Nodup)
    (exact_tuples : ∀ tuple, tuple ∈ tuples ↔ Clause.Matches ⟨[left, right]⟩ g symbols tuple) :
    (tuples.map Row.joined).Nodup :=
  distinct.map_on fun one mem_one other mem_other eq => by
    obtain ⟨a, b, rfl, is_a, is_b, -⟩ := Clause.matches_pair.mp ((exact_tuples one).mp mem_one)
    obtain ⟨c, d, rfl, is_c, is_d, -⟩ := Clause.matches_pair.mp ((exact_tuples other).mp mem_other)
    rw [Row.joined_pair, Row.joined_pair] at eq
    have same := is_a.fits.length_eq.trans is_c.fits.length_eq.symm
    obtain ⟨first, second⟩ := List.append_inj (congrArg Row.path eq) same
    rw [is_a.ext is_c first, is_b.ext is_d second]

theorem Cut.joined_meets (cut : p.Cut i left right)
    (named : p.elements[i]?.bind Element.name = some n)
    (single : ∀ symbol, symbols[n]? = some symbol →
      ∀ v w, symbol.contains v = true → symbol.contains w = true → v = w)
    {a b : Row} (is_left : left.Matches g ⟨symbols, ∅⟩ a) (is_right : right.Matches g ⟨symbols, ∅⟩ b)
    (agree : a.bindings.Agree b.bindings) : (a.join b).path[i]? = (a.join b).path[i + 1]? := by
  obtain ⟨element, at_element, name⟩ := Option.bind_eq_some_iff.mp named
  have full : a.path.length = i + 1 := is_left.fits.length_eq.trans cut.length_left
  obtain ⟨v, at_v⟩ : ∃ v, a.path[i]? = some v := ⟨_, List.getElem?_eq_getElem (by omega)⟩
  obtain ⟨w, at_w⟩ : ∃ w, b.path[0]? = some w :=
    ⟨_, List.getElem?_eq_getElem (is_right.fits.length_eq ▸ by simp [PathPattern.length])⟩
  have entry_v : (n, v) ∈ left.entries a.path := by
    refine mem_entries.mpr ⟨i, element, ?_, name, at_v⟩
    rw [cut.elements_left, List.getElem?_take_of_lt (Nat.lt_succ_self i), at_element]
  have entry_w : (n, w) ∈ right.entries b.path := by
    refine mem_entries.mpr ⟨0, element, ?_, name, at_w⟩
    rw [cut.elements_right, List.getElem?_drop, Nat.add_zero, at_element]
  rw [is_left.bindings, is_right.bindings] at agree
  have agrees := Scope.agrees_append.mpr ⟨is_left.agrees, is_right.agrees, agree⟩
  have mem_v := List.mem_append_left (right.entries b.path) entry_v
  have mem_w := List.mem_append_right (left.entries a.path) entry_w
  -- A symbol has but one member to take, and any other name is bound by both halves alike.
  have same : v = w := by
    by_cases symbol : n ∈ symbols
    · have at_name : symbols[n]? = some symbols[n] := Std.ExtTreeMap.getElem?_eq_some_getElem symbol
      exact single _ at_name v w (agrees.1 _ mem_v _ at_name) (agrees.1 _ mem_w _ at_name)
    · exact agrees.2 _ mem_v _ mem_w rfl fun fixed => symbol (Scope.fixes_symbols.mp fixed)
  rw [Row.join, List.getElem?_append_left (by omega), List.getElem?_append_right (by omega), full,
    Nat.sub_self, at_v, at_w, same]

end Rows

end PathPattern

namespace PathPattern

variable {g : Graph}

theorem run_halves {σ τ : Type} (reachable : g.Reachable) (p : PathPattern) (i : Nat)
    (node : NodePattern) (n : String) (at_i : p.element? i = some (.node node))
    (name : node.name = some n) (symbols : Symbols)
    (collector : Collector σ) (goes_on : ∀ row s, (collector row s).2 = .next) (state : σ)
    (other : Collector τ) (other_goes_on : ∀ row s, (other row s).2 = .next) (start : τ)
    (ok : (p.run g symbols .none collector state).2 = .ok ())
    (halves_ok : ((p.halves i node).run g symbols .none other start).2 = .ok ()) :
    ∃ rows joined : List Row,
      (p.run g symbols .none collector state).1 =
        rows.foldl (fun s row => (collector row s).1) state ∧
      ((p.halves i node).run g symbols .none other start).1 =
        joined.foldl (fun s row => (other row s).1) start ∧
      (rows.map (·.repeatedAt i)).Perm
        (joined.filter fun row => row.path[i]? = row.path[i + 1]?) ∧
      ((∀ symbol, symbols[n]? = some symbol →
          ∀ v w, symbol.contains v = true → symbol.contains w = true → v = w) →
        (rows.map (·.repeatedAt i)).Perm joined) := by
  have cut := cut_of_node at_i
  have named : p.elements[i]?.bind Element.name = some n := by
    rw [← element?_eq, at_i]
    exact name
  obtain ⟨rows, distinct, exact_rows, kept⟩ := run_rows reachable.sound goes_on ok
  obtain ⟨tuples, distinct_tuples, exact_tuples, joined⟩ :=
    Clause.run_tuples reachable.sound other_goes_on halves_ok
  have same : (rows.map (·.repeatedAt i)).Perm
      ((tuples.map Row.joined).filter fun row => row.path[i]? = row.path[i + 1]?) :=
    (List.perm_ext_iff_of_nodup (nodup_repeated distinct exact_rows)
      ((nodup_joined distinct_tuples exact_tuples).filter _)).mpr
      (cut.mem_repeated named exact_rows exact_tuples)
  refine ⟨rows, tuples.map Row.joined, kept, joined, same, fun single => ?_⟩
  have all : (tuples.map Row.joined).filter (fun row => row.path[i]? = row.path[i + 1]?) =
      tuples.map Row.joined := by
    refine List.filter_eq_self.mpr fun row mem => decide_eq_true ?_
    obtain ⟨tuple, listed, rfl⟩ := List.mem_map.mp mem
    obtain ⟨a, b, rfl, is_left, is_right, agree⟩ :=
      Clause.matches_pair.mp ((exact_tuples tuple).mp listed)
    rw [Row.joined_pair]
    exact cut.joined_meets named single is_left is_right agree
  exact all ▸ same

def leaving : PathPattern := (ofNode (.named .any "x")).step (.any .outgoing) .any

theorem run_halves_pair :
    Graph.pair.Reachable ∧ (∀ row s, (Collector.rows row s).2 = .next) ∧
      leaving.element? 0 = some (.node (.named .any "x")) ∧
      (leaving.run .pair ∅ .none Collector.rows []).2 = .ok () ∧
      ((leaving.halves 0 (.named .any "x")).run .pair ∅ .none Collector.rows []).2 = .ok () ∧
      (leaving.run .pair ∅ .none Collector.rows []).1.map Row.path =
        [[.node ⟨0⟩, .edges [⟨0⟩], .node ⟨1⟩]] ∧
      ((leaving.halves 0 (.named .any "x")).run .pair ∅ .none Collector.rows []).1.map Row.path =
        [[.node ⟨0⟩, .node ⟨0⟩, .edges [⟨0⟩], .node ⟨1⟩]] ∧
      ∃ rows joined : List Row,
        (leaving.run .pair ∅ .none Collector.rows []).1 =
          rows.foldl (fun s row => (Collector.rows row s).1) [] ∧
        ((leaving.halves 0 (.named .any "x")).run .pair ∅ .none Collector.rows []).1 =
          joined.foldl (fun s row => (Collector.rows row s).1) [] ∧
        (rows.map (·.repeatedAt 0)).Perm
          (joined.filter fun row => row.path[0]? = row.path[0 + 1]?) ∧
        (rows.map (·.repeatedAt 0)).Perm joined := by
  have ok : (leaving.run .pair ∅ .none Collector.rows []).2 = .ok () := by decide +kernel
  have halves_ok : ((leaving.halves 0 (.named .any "x")).run .pair ∅ .none Collector.rows []).2 =
      .ok () := by decide +kernel
  obtain ⟨rows, joined, kept, joined_kept, agreeing, all⟩ := run_halves Graph.reachable_pair leaving
    0 (.named .any "x") "x" rfl rfl ∅ Collector.rows (fun _ _ => rfl) [] Collector.rows
    (fun _ _ => rfl) [] ok halves_ok
  exact ⟨Graph.reachable_pair, fun _ _ => rfl, rfl, ok, halves_ok, by decide +kernel,
    by decide +kernel, rows, joined, kept, joined_kept, agreeing,
    all fun _ at_x => by simp at at_x⟩

/-- A symbol with two members is asked for by each half alone, which may take different ones. -/
theorem not_run_halves_perm :
    ¬∀ (g : Graph) (p : PathPattern) (i : Nat) (node : NodePattern) (n : String)
      (symbols : Symbols), g.Reachable → p.element? i = some (.node node) → node.name = some n →
      (p.run g symbols .none Collector.rows []).2 = .ok () →
      ((p.halves i node).run g symbols .none Collector.rows []).2 = .ok () →
      ((p.run g symbols .none Collector.rows []).1.map (·.repeatedAt i)).Perm
        ((p.halves i node).run g symbols .none Collector.rows []).1 := by
  intro halves
  have same := halves .pair leaving 0 (.named .any "x") "x" eitherNode Graph.reachable_pair rfl rfl
    (by decide +kernel) (by decide +kernel)
  exact absurd same.length_eq (by decide +kernel)

end PathPattern

end PropertyGraph
