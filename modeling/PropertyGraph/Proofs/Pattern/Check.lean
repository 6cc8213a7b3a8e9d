import PropertyGraph.Pattern.Check
import PropertyGraph.Proofs.Match.Layout

namespace PropertyGraph

theorem HopRange.exists_contains_iff {r : HopRange} :
    (∃ hops, r.contains hops = true) ↔ ∀ max, r.max = some max → r.minHops ≤ max := by
  constructor
  · rintro ⟨hops, held⟩ max at_max
    simp only [contains, at_max, Option.all_some, Bool.and_eq_true, decide_eq_true_eq] at held
    exact held.1.trans held.2
  · intro wide
    refine ⟨r.minHops, ?_⟩
    cases at_max : r.max with
    | none => simp [contains, at_max]
    | some max => simp [contains, at_max, wide max at_max]

namespace Element

variable {position : Nat} {element : Element}

def Ranges (element : Element) : Prop :=
  ∀ edge, element = .edge edge → ∃ hops, edge.length.contains hops = true

theorem rangeFault?_eq_none_iff : element.rangeFault? position = none ↔ element.Ranges := by
  cases element with
  | node pattern => simp [rangeFault?, Ranges]
  | edge pattern =>
      simp only [Ranges, edge.injEq, forall_eq', HopRange.exists_contains_iff, rangeFault?]
      cases pattern.length.max with
      | none => simp
      | some max => simp

theorem of_rangeFault? {fault : PatternFault} (found : element.rangeFault? position = some fault) :
    ∃ edge max, element = .edge edge ∧ edge.length.max = some max ∧ max < edge.length.minHops ∧
      fault = .emptyRange position edge.length.min max := by
  cases element with
  | node pattern => cases found
  | edge pattern =>
      rw [rangeFault?] at found
      split at found
      · cases found
      · rename_i max at_max
        split at found
        · rename_i narrow
          cases found
          exact ⟨pattern, max, rfl, at_max, narrow, rfl⟩
        · cases found

end Element

namespace PathPattern

variable {p : PathPattern} {i : Nat}

def EmptyRangeAt (p : PathPattern) (i : Nat) : Prop :=
  ∃ edge, p.element? i = some (.edge edge) ∧ ∀ hops, edge.length.contains hops = false

def TurnsAt (p : PathPattern) (i : Nat) (name : String) : Prop :=
  ∃ element, p.element? i = some element ∧ element.name = some name ∧
    ∃ j < i, ∃ earlier, p.element? j = some earlier ∧ earlier.name = some name ∧
      earlier.kind ≠ element.kind

def CleanAt (p : PathPattern) (i : Nat) : Prop := ¬p.EmptyRangeAt i ∧ ∀ name, ¬p.TurnsAt i name

/-- What there is to say of a position; its range comes before its name. -/
inductive FaultAt (p : PathPattern) (i : Nat) : PatternFault → Prop
  | emptyRange {edge : EdgePattern} {max : Nat} (there : p.element? i = some (.edge edge))
      (empty : ∀ hops, edge.length.contains hops = false) (at_max : edge.length.max = some max) :
      FaultAt p i (.emptyRange i edge.length.min max)
  | mixedKinds {name : String} (ranges : ¬p.EmptyRangeAt i) (turns : p.TurnsAt i name) :
      FaultAt p i (.mixedKinds name)

def Scanned (p : PathPattern) : Option PatternFault → Prop
  | none => ∀ i, p.CleanAt i
  | some fault => ∃ i, p.FaultAt i fault ∧ ∀ j < i, p.CleanAt j

theorem emptyRangeAt_iff {element : Element} (there : p.element? i = some element) :
    p.EmptyRangeAt i ↔ ¬element.Ranges := by
  simp only [EmptyRangeAt, there, Option.some.injEq, Element.Ranges, not_forall, not_exists,
    Bool.not_eq_true, exists_prop]

theorem FaultAt.not_cleanAt {fault : PatternFault} (faulty : p.FaultAt i fault) : ¬p.CleanAt i := by
  rintro ⟨ranges, keeps⟩
  cases faulty with
  | emptyRange there empty at_max => exact ranges ⟨_, there, empty⟩
  | mixedKinds _ turns => exact keeps _ turns

theorem FaultAt.unique {fault other : PatternFault} (faulty : p.FaultAt i fault)
    (also : p.FaultAt i other) : fault = other := by
  cases faulty with
  | emptyRange there empty at_max =>
      cases also with
      | emptyRange there' _ at_max' =>
          cases there.symm.trans there'
          cases at_max.symm.trans at_max'
          rfl
      | mixedKinds ranges _ => exact absurd ⟨_, there, empty⟩ ranges
  | mixedKinds ranges turns =>
      cases also with
      | emptyRange there empty _ => exact absurd ⟨_, there, empty⟩ ranges
      | mixedKinds _ turns' =>
          obtain ⟨element, there, named, -⟩ := turns
          obtain ⟨element', there', named', -⟩ := turns'
          cases there.symm.trans there'
          cases named.symm.trans named'
          rfl

section Scan

def Records (seen : List (String × VariableKind)) (before : List Element) : Prop :=
  ∀ name kind, seen.lookup name = some kind ↔
    ∃ element ∈ before, element.name = some name ∧ element.kind = kind

variable {seen : List (String × VariableKind)} {before rest : List Element} {element : Element}
  {name : String}

theorem Records.unnamed (records : Records seen before) (unnamed : element.name = none) :
    Records seen (before ++ [element]) := by
  intro n k
  rw [records n k]
  simp [or_and_right, exists_or, unnamed]

theorem Records.again (records : Records seen before) (named : element.name = some name)
    (known : seen.lookup name = some element.kind) : Records seen (before ++ [element]) := by
  intro n k
  rw [records n k]
  constructor
  · rintro ⟨earlier, mem, there⟩
    exact ⟨earlier, List.mem_append_left _ mem, there⟩
  · rintro ⟨other, mem, at_other, rfl⟩
    rcases List.mem_append.mp mem with mem | mem
    · exact ⟨other, mem, at_other, rfl⟩
    · cases List.mem_singleton.mp mem
      cases named.symm.trans at_other
      exact (records name element.kind).mp known

theorem Records.first (records : Records seen before) (named : element.name = some name)
    (unknown : seen.lookup name = none) :
    Records ((name, element.kind) :: seen) (before ++ [element]) := by
  have fresh (other : Element) (mem : other ∈ before) : other.name ≠ some name := fun same => by
    rw [(records name other.kind).mpr ⟨other, mem, same, rfl⟩] at unknown
    cases unknown
  intro n k
  rw [List.lookup_cons]
  by_cases same : n = name
  · subst same
    simp only [beq_self_eq_true, Option.some.injEq]
    constructor
    · rintro rfl
      exact ⟨element, by simp, named, rfl⟩
    · rintro ⟨other, mem, at_other, rfl⟩
      rcases List.mem_append.mp mem with mem | mem
      · exact absurd at_other (fresh other mem)
      · rw [List.mem_singleton.mp mem]
  · rw [beq_false_of_ne same]
    rw [records n k]
    simp [or_and_right, exists_or, named, Ne.symm same]

theorem element?_of_split (split : p.elements = before ++ element :: rest) :
    p.element? before.length = some element := by
  rw [element?_eq, split, List.getElem?_append_right (Nat.le_refl _), Nat.sub_self]
  rfl

theorem turnsAt_iff (split : p.elements = before ++ element :: rest) :
    p.TurnsAt before.length name ↔ element.name = some name ∧
      ∃ earlier ∈ before, earlier.name = some name ∧ earlier.kind ≠ element.kind := by
  have here := element?_of_split split
  have at_before {j : Nat} (less : j < before.length) : p.element? j = before[j]? := by
    rw [element?_eq, split, List.getElem?_append_left less]
  constructor
  · rintro ⟨other, there, named, j, less, earlier, at_j, earlier_named, apart⟩
    cases here.symm.trans there
    rw [at_before less] at at_j
    exact ⟨named, earlier, List.mem_of_getElem? at_j, earlier_named, apart⟩
  · rintro ⟨named, earlier, mem, earlier_named, apart⟩
    obtain ⟨j, less, rfl⟩ := List.mem_iff_getElem.mp mem
    exact ⟨element, here, named, j, less, before[j],
      (at_before less).trans (List.getElem?_eq_getElem less), earlier_named, apart⟩

theorem cleanAt_of_unnamed (split : p.elements = before ++ element :: rest)
    (ranges : element.Ranges) (unnamed : element.name = none) : p.CleanAt before.length := by
  refine ⟨fun empty => (emptyRangeAt_iff (element?_of_split split)).mp empty ranges,
    fun name turns => ?_⟩
  rw [turnsAt_iff split, unnamed] at turns
  cases turns.1

theorem cleanAt_of_records (records : Records seen before)
    (split : p.elements = before ++ element :: rest) (ranges : element.Ranges)
    (named : element.name = some name)
    (keeps : ∀ kind, seen.lookup name = some kind → kind = element.kind) :
    p.CleanAt before.length := by
  refine ⟨fun empty => (emptyRangeAt_iff (element?_of_split split)).mp empty ranges,
    fun other turns => ?_⟩
  rw [turnsAt_iff split] at turns
  obtain ⟨same, earlier, mem, earlier_named, apart⟩ := turns
  cases named.symm.trans same
  exact apart (keeps _ ((records name _).mpr ⟨earlier, mem, earlier_named, rfl⟩))

theorem faultAt_of_rangeFault? (split : p.elements = before ++ element :: rest)
    {fault : PatternFault} (found : element.rangeFault? before.length = some fault) :
    p.FaultAt before.length fault := by
  obtain ⟨edge, max, rfl, at_max, narrow, rfl⟩ := Element.of_rangeFault? found
  refine .emptyRange (element?_of_split split) (fun hops => ?_) at_max
  simp only [HopRange.contains, at_max, Option.all_some, Bool.and_eq_false_iff,
    decide_eq_false_iff_not]
  omega

theorem faultAt_of_records (records : Records seen before)
    (split : p.elements = before ++ element :: rest) (ranges : element.Ranges)
    (named : element.name = some name) {kind : VariableKind}
    (known : seen.lookup name = some kind) (apart : kind ≠ element.kind) :
    p.FaultAt before.length (.mixedKinds name) := by
  obtain ⟨earlier, mem, earlier_named, rfl⟩ := (records name kind).mp known
  refine .mixedKinds (fun empty => ?_) ?_
  · exact (emptyRangeAt_iff (element?_of_split split)).mp empty ranges
  · exact (turnsAt_iff split).mpr ⟨named, earlier, mem, earlier_named, apart⟩

theorem clean_step (split : p.elements = before ++ element :: rest)
    (clean : ∀ j < before.length, p.CleanAt j) (here : p.CleanAt before.length) :
    p.elements = (before ++ [element]) ++ rest ∧
      ∀ j < (before ++ [element]).length, p.CleanAt j := by
  refine ⟨by simpa using split, fun j less => ?_⟩
  rw [List.length_append, List.length_singleton, Nat.lt_succ_iff_lt_or_eq] at less
  rcases less with less | rfl
  · exact clean j less
  · exact here

theorem scanned_firstFault? (before : List Element) (split : p.elements = before ++ rest)
    (records : Records seen before) (clean : ∀ j < before.length, p.CleanAt j) :
    p.Scanned (Element.firstFault? before.length seen rest) := by
  -- All before the position is clean and on record; a clean position keeps it so.
  induction rest generalizing before seen with
  | nil =>
      intro i
      rcases Nat.lt_or_ge i before.length with less | beyond
      · exact clean i less
      · have nothing : p.element? i = none := by
          rw [element?_eq, split, List.append_nil, List.getElem?_eq_none beyond]
        refine ⟨fun ⟨edge, there, _⟩ => ?_, fun name ⟨element, there, _⟩ => ?_⟩ <;>
          (rw [nothing] at there; cases there)
  | cons element rest ih =>
      have next {seen' : List (String × VariableKind)} (here : p.CleanAt before.length)
          (records' : Records seen' (before ++ [element])) :
          p.Scanned (Element.firstFault? (before.length + 1) seen' rest) := by
        obtain ⟨split', clean'⟩ := clean_step split clean here
        simpa using ih _ split' records' clean'
      rw [Element.firstFault?]
      split
      · rename_i fault found
        exact ⟨before.length, faultAt_of_rangeFault? split found, clean⟩
      · rename_i found
        have ranges := Element.rangeFault?_eq_none_iff.mp found
        split
        · rename_i unnamed
          exact next (cleanAt_of_unnamed split ranges unnamed) (records.unnamed unnamed)
        · rename_i name named
          split
          · rename_i unknown
            refine next (cleanAt_of_records records split ranges named fun kind known => ?_)
              (records.first named unknown)
            rw [unknown] at known
            cases known
          · rename_i kind known
            split
            · rename_i same
              subst same
              refine next (cleanAt_of_records records split ranges named fun kind also => ?_)
                (records.again named known)
              exact Option.some.inj (also.symm.trans known)
            · rename_i apart
              exact ⟨before.length, faultAt_of_records records split ranges named known apart, clean⟩

theorem scanned_fault? (p : PathPattern) : p.Scanned p.fault? :=
  scanned_firstFault? [] rfl (fun name kind => by simp) fun j less => by cases less

end Scan

theorem Scanned.unique {found other : Option PatternFault} (scanned : p.Scanned found)
    (also : p.Scanned other) : found = other := by
  cases found with
  | none =>
      cases other with
      | none => rfl
      | some fault =>
          obtain ⟨i, faulty, -⟩ := also
          exact absurd (scanned i) faulty.not_cleanAt
  | some fault =>
      obtain ⟨i, faulty, clean⟩ := scanned
      cases other with
      | none => exact absurd (also i) faulty.not_cleanAt
      | some fault' =>
          obtain ⟨j, faulty', clean'⟩ := also
          rcases Nat.lt_trichotomy i j with less | rfl | more
          · exact absurd (clean' i less) faulty.not_cleanAt
          · rw [faulty.unique faulty']
          · exact absurd (clean j more) faulty'.not_cleanAt

theorem exists_turnsAt {i j : Nat} {a b : Element} {name : String} (at_i : p.element? i = some a)
    (at_j : p.element? j = some b) (named_a : a.name = some name) (named_b : b.name = some name)
    (apart : a.kind ≠ b.kind) : ∃ k, p.TurnsAt k name := by
  rcases Nat.lt_trichotomy i j with less | rfl | more
  · exact ⟨j, b, at_j, named_b, i, less, a, at_i, named_a, apart⟩
  · cases at_i.symm.trans at_j
    exact absurd rfl apart
  · exact ⟨i, a, at_i, named_a, j, more, b, at_j, named_b, apart.symm⟩

theorem forall_cleanAt_iff : (∀ i, p.CleanAt i) ↔
    (∀ i edge, p.element? i = some (.edge edge) → ∃ hops, edge.length.contains hops = true) ∧
      ∀ i j node edge name, p.element? i = some (.node node) → p.element? j = some (.edge edge) →
        node.name = some name → edge.name ≠ some name := by
  constructor
  · intro clean
    refine ⟨fun i edge there => ?_, fun i j node edge name at_i at_j node_named edge_named => ?_⟩
    · by_contra empty
      exact (clean i).1 ⟨edge, there, by simpa using empty⟩
    · obtain ⟨k, turns⟩ := exists_turnsAt at_i at_j node_named edge_named (by simp [Element.kind])
      exact (clean k).2 name turns
  · rintro ⟨ranges, apart⟩ i
    refine ⟨fun ⟨edge, there, empty⟩ => ?_, ?_⟩
    · obtain ⟨hops, held⟩ := ranges i edge there
      rw [empty hops] at held
      cases held
    · rintro name ⟨element, at_i, named, j, -, earlier, at_j, earlier_named, kinds⟩
      cases element with
      | node node =>
          cases earlier with
          | node _ => exact kinds rfl
          | edge edge => exact apart i j node edge name at_i at_j named earlier_named
      | edge edge =>
          cases earlier with
          | node node => exact apart j i node edge name at_j at_i earlier_named named
          | edge _ => exact kinds rfl

theorem validate_eq_error_iff {fault : PatternFault} :
    p.validate = .error fault ↔ p.fault? = some fault := by
  rw [validate]
  cases p.fault? <;> simp

theorem validate_eq_ok_iff : p.validate = .ok () ↔ p.fault? = none := by
  rw [validate]
  cases p.fault? <;> simp

theorem kind_eq_of_name (valid : p.validate = .ok ()) {a b : Element} (mem_a : a ∈ p.elements)
    (mem_b : b ∈ p.elements) {name : String} (named_a : a.name = some name)
    (named_b : b.name = some name) : a.kind = b.kind := by
  have clean := p.scanned_fault?
  rw [validate_eq_ok_iff.mp valid] at clean
  obtain ⟨i, at_i⟩ := List.mem_iff_getElem?.mp mem_a
  obtain ⟨j, at_j⟩ := List.mem_iff_getElem?.mp mem_b
  rw [← element?_eq] at at_i at_j
  by_contra apart
  obtain ⟨k, turns⟩ := exists_turnsAt at_i at_j named_a named_b apart
  exact (clean k).2 name turns

theorem exists_kinds (valid : p.validate = .ok ()) : ∃ kindOf : String → VariableKind,
    ∀ element ∈ p.elements, ∀ n, element.name = some n → kindOf n = element.kind := by
  refine ⟨fun n => ((p.elements.find? fun element => element.name = some n).map
    Element.kind).getD .node, fun element mem n named => ?_⟩
  dsimp only
  cases found : p.elements.find? fun element => element.name = some n with
  | none => exact absurd named (by simpa using List.find?_eq_none.mp found element mem)
  | some first =>
      have first_named : first.name = some n := by simpa using List.find?_some found
      exact kind_eq_of_name valid (List.mem_of_find?_eq_some found) mem first_named named

theorem validate_exact (p : PathPattern) :
    (p.validate = .ok () ↔
      (∀ i edge, p.element? i = some (.edge edge) → ∃ hops, edge.length.contains hops = true) ∧
        ∀ i j node edge name, p.element? i = some (.node node) → p.element? j = some (.edge edge) →
          node.name = some name → edge.name ≠ some name) ∧
    ∀ fault, p.validate = .error fault ↔
      ∃ i, p.FaultAt i fault ∧ ∀ j < i, ¬p.EmptyRangeAt j ∧ ∀ name, ¬p.TurnsAt j name := by
  have scanned := p.scanned_fault?
  constructor
  · rw [validate_eq_ok_iff, ← forall_cleanAt_iff]
    constructor
    · intro none_found
      rwa [none_found] at scanned
    · exact fun clean => scanned.unique clean
  · intro fault
    rw [validate_eq_error_iff]
    constructor
    · intro found
      rwa [found] at scanned
    · exact fun first => scanned.unique first

def bothFaults : PathPattern :=
  (ofNode (.named .any "x")).step
    (((EdgePattern.any .outgoing).named "x").withLength ⟨some 3, some 2⟩) (.named .any "y")

theorem validate_exact_bothFaults :
    bothFaults.TurnsAt 1 "x" ∧ bothFaults.validate = .error (.emptyRange 1 (some 3) 2) ∧
      (∃ i, bothFaults.FaultAt i (.emptyRange 1 (some 3) 2) ∧
        ∀ j < i, ¬bothFaults.EmptyRangeAt j ∧ ∀ name, ¬bothFaults.TurnsAt j name) ∧
      (PathPattern.mk (.named .any "y") []).validate = .ok () := by
  have refused : bothFaults.validate = .error (.emptyRange 1 (some 3) 2) := by decide
  refine ⟨⟨_, rfl, rfl, 0, by decide, _, rfl, rfl, by decide⟩, refused,
    ((validate_exact bothFaults).2 _).mp refused, (validate_exact _).1.mpr ⟨?_, ?_⟩⟩
  · intro i edge there
    cases i <;> cases there
  · intro i j node edge name _ there
    cases j <;> cases there

end PathPattern

end PropertyGraph
