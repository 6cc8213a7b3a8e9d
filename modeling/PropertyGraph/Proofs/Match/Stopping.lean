import PropertyGraph.Proofs.Match.Clauses

/-!
Runs that are cut short. A limit or the collector may end a run before its time; then the collector
was called with the first rows of the whole run and with no other.
-/

namespace PropertyGraph

namespace Findings

variable {α : Type}

def leading : Findings α → List α
  | [] => []
  | .error _ :: _ => []
  | .ok a :: rest => a :: leading rest

def ending : Findings α → Outcome
  | [] => .next
  | .error e :: _ => .failed e
  | .ok _ :: rest => ending rest

theorem ok_mem_of_mem_leading {findings : Findings α} {a : α} (mem : a ∈ findings.leading) :
    .ok a ∈ findings := by
  induction findings with
  | nil => cases mem
  | cons item rest ih =>
      cases item with
      | error e => cases mem
      | ok b =>
          rcases List.mem_cons.mp mem with rfl | mem
          · exact List.mem_cons_self
          · exact List.mem_cons_of_mem _ (ih mem)

theorem leading_eq_nil {findings : Findings α} (nothing : ∀ a, .ok a ∉ findings) :
    findings.leading = [] := by
  refine List.eq_nil_iff_forall_not_mem.mpr ?_
  intro a mem
  exact nothing a (ok_mem_of_mem_leading mem)

theorem error_mem_of_ending {findings : Findings α} {e : MatchError}
    (failed : findings.ending = .failed e) : .error e ∈ findings := by
  induction findings with
  | nil => cases failed
  | cons item rest ih =>
      cases item with
      | error e' =>
          cases failed
          exact List.mem_cons_self
      | ok b => exact List.mem_cons_of_mem _ (ih failed)

theorem ending_ne_stop (findings : Findings α) : findings.ending ≠ .stop := by
  induction findings with
  | nil => exact Outcome.noConfusion
  | cons item rest ih =>
      cases item with
      | error e => exact Outcome.noConfusion
      | ok b => exact ih

theorem eq_nil_iff {findings : Findings α} :
    findings = [] ↔ findings.leading = [] ∧ findings.ending.result = .ok () := by
  constructor
  · rintro rfl
    exact ⟨rfl, rfl⟩
  · rintro ⟨nothing, ended⟩
    cases findings with
    | nil => rfl
    | cons item rest =>
        cases item with
        | error e => cases ended
        | ok a => cases nothing

end Findings

theorem visitEach_eq_leading {α σ : Type} (visit : α → Visit σ) (findings : Findings α) (s : σ) :
    visitEach visit findings s =
      match visitAll visit findings.leading s with
      | (s, .next) => (s, findings.ending)
      | ended => ended := by
  induction findings generalizing s with
  | nil => rfl
  | cons item rest ih =>
      cases item with
      | error e => rfl
      | ok a =>
          rw [visitEach_cons_ok, Findings.leading, Findings.ending, visitAll]
          rcases visit a s with ⟨s', _ | _ | e⟩
          · exact ih s'
          · rfl
          · rfl

namespace Collector

variable {σ : Type}

def traced (inner : Collector σ) : Collector (List Row × σ) := fun row (calls, state) =>
  let (state, outcome) := inner row state
  ((calls ++ [row], state), outcome)

def answers (collector : Collector σ) : List Row → σ → List Outcome
  | [], _ => []
  | row :: rest, state => (collector row state).2 :: collector.answers rest (collector row state).1

def after (collector : Collector σ) (rows : List Row) (state : σ) : σ :=
  rows.foldl (fun state row => (collector row state).1) state

/-- How many of the rows answer before the first at which the collector does not go on. -/
def patience (collector : Collector σ) (rows : List Row) (state : σ) : Nat :=
  (collector.answers rows state).findIdx (· ≠ .next)

def calls (collector : Collector σ) (limit : Option Nat) (rows : List Row) (state : σ) : Nat :=
  min (limit.getD rows.length) (min (collector.patience rows state + 1) rows.length)

section Single

variable (collector : Collector σ)

theorem after_traced (rows trace : List Row) (state : σ) :
    collector.traced.after rows (trace, state) = (trace ++ rows, collector.after rows state) := by
  induction rows generalizing trace state with
  | nil => simp [after]
  | cons row rest ih => simpa [after, traced] using ih (trace ++ [row]) (collector row state).1

theorem answers_traced (rows trace : List Row) (state : σ) :
    collector.traced.answers rows (trace, state) = collector.answers rows state := by
  induction rows generalizing trace state with
  | nil => rfl
  | cons row rest ih => simpa [answers, traced] using ih (trace ++ [row]) (collector row state).1

theorem getElem?_answers (rows : List Row) (state : σ) (i : Nat) :
    (collector.answers rows state)[i]? =
      rows[i]?.map fun row => (collector row (collector.after (rows.take i) state)).2 := by
  induction rows generalizing state i with
  | nil => rfl
  | cons row rest ih =>
      cases i with
      | zero => rfl
      | succ i => simpa [answers, after] using ih (collector row state).1 i

theorem patience_cons (row : Row) (rest : List Row) (state : σ) :
    collector.patience (row :: rest) state =
      if (collector row state).2 = .next then
        collector.patience rest (collector row state).1 + 1
      else 0 := by
  rw [patience, patience, answers, List.findIdx_cons]
  cases (collector row state).2 <;> simp

theorem calls_cons {limit : Option Nat} (positive : limit ≠ some 0) (row : Row) (rest : List Row)
    (state : σ) : collector.calls limit (row :: rest) state =
      if (collector row state).2 = .next then
        collector.calls (limit.map (· - 1)) rest (collector row state).1 + 1
      else 1 := by
  rw [calls, calls, patience_cons, List.length_cons]
  cases limit with
  | none => split <;> simp only [Option.map_none, Option.getD_none] <;> omega
  | some k =>
      have pos : k ≠ 0 := fun eq => positive (congrArg some eq)
      split <;> simp only [Option.map_some, Option.getD_some] <;> omega

theorem limited_eq (limit : Option Nat) (row : Row) (n : Nat) (state : σ) :
    collector.limited limit row (n, state) =
      ((n + 1, (collector row state).1),
        if (collector row state).2 = .next then if limit.any (· ≤ n + 1) then .stop else .next
        else (collector row state).2) := by
  dsimp only [limited]
  rcases collector row state with ⟨state', _ | _ | e⟩ <;> simp

theorem any_le_of_room {limit : Option Nat} {n : Nat} (room : ∀ k, limit = some k → n < k) :
    limit.any (· ≤ n + 1) = decide (limit = some (n + 1)) := by
  cases limit with
  | none => rfl
  | some k =>
      have := room k rfl
      simp only [Option.any_some, Option.some.injEq, decide_eq_decide]
      omega

theorem visitAll_limited (limit : Option Nat) (rows : List Row) (n : Nat) (state : σ)
    (room : ∀ k, limit = some k → n < k) :
    let count := collector.calls (limit.map (· - n)) rows state
    visitAll (collector.limited limit) rows (n, state) =
      ((n + count, collector.after (rows.take count) state),
        if collector.patience rows state < count then
          (collector.answers rows state)[collector.patience rows state]?.getD .next
        else if limit = some (n + count) then .stop else .next) := by
  -- Each row moves one unit of the limit from what is left to what is used up.
  induction rows generalizing n state with
  | nil =>
      have open_end : limit ≠ some n := fun eq => Nat.lt_irrefl n (room n eq)
      simp [visitAll, calls, after, open_end]
  | cons row rest ih =>
      have positive : limit.map (· - n) ≠ some 0 := by
        intro eq
        obtain ⟨k, at_k, used⟩ := Option.map_eq_some_iff.mp eq
        have := room k at_k
        omega
      dsimp only
      rw [visitAll, limited_eq, calls_cons collector positive, patience_cons, any_le_of_room room]
      cases answer : (collector row state).2 with
      | next =>
          simp only [↓reduceIte, decide_eq_true_eq]
          by_cases full : limit = some (n + 1)
          · subst full
            simp [calls, after]
          · have later : ∀ k, limit = some k → n + 1 < k := by
              intro k at_k
              have := room k at_k
              have : k ≠ n + 1 := fun eq => full (eq ▸ at_k)
              omega
            have shorter : (limit.map (· - n)).map (· - 1) = limit.map (· - (n + 1)) := by
              rw [Option.map_map]
              rfl
            simp only [if_neg full, shorter, ih (n + 1) _ later]
            simp [answers, after, Nat.add_assoc, Nat.add_comm 1]
      | stop => simp [answers, after, answer]
      | failed e => simp [answers, after, answer]

theorem exists_answer (rows : List Row) (state : σ)
    (ends : collector.patience rows state < rows.length) :
    ∃ answer, (collector.answers rows state)[collector.patience rows state]? = some answer ∧
      answer ≠ .next := by
  induction rows generalizing state with
  | nil => cases ends
  | cons row rest ih =>
      rw [patience_cons] at ends ⊢
      split at ends
      · rename_i goes_on
        rw [if_pos goes_on]
        exact ih _ (Nat.lt_of_succ_lt_succ ends)
      · rename_i ended
        rw [if_neg ended]
        exact ⟨_, rfl, ended⟩

end Single

theorem after_rows (rows kept : List Row) : Collector.rows.after rows kept = kept ++ rows := by
  induction rows generalizing kept with
  | nil => simp [after]
  | cons row rest ih => simpa [after, Collector.rows] using ih (kept ++ [row])

theorem patience_of_next {collector : Collector σ} (goes_on : ∀ row s, (collector row s).2 = .next)
    (rows : List Row) (state : σ) : collector.patience rows state = rows.length := by
  induction rows generalizing state with
  | nil => rfl
  | cons row rest ih => rw [patience_cons, if_pos (goes_on row state), ih, List.length_cons]

theorem patience_rows (rows kept : List Row) : Collector.rows.patience rows kept = rows.length :=
  patience_of_next (fun _ _ => rfl) rows kept

end Collector

/-- What a run under a limit comes to, when `whole` is what the same run keeps and how it ends if
nothing stops it, and `traced` is the run with its calls noted. -/
structure Collector.CutShort {σ : Type} (collector : Collector σ) (limit : Option Nat) (state : σ)
    (whole : List Row × Except MatchError Unit) (traced : (List Row × σ) × Except MatchError Unit)
    (plain : σ × Except MatchError Unit) : Prop where
  calls : traced.1.1 = whole.1.take (collector.calls limit whole.1 state)
  same : plain = (traced.1.2, traced.2)
  gathered : plain.1 = collector.after traced.1.1 state
  stopped : collector.patience whole.1 state < collector.calls limit whole.1 state →
    (collector.answers whole.1 state)[collector.patience whole.1 state]? = some .stop →
    plain.2 = .ok ()
  refused (e : MatchError) :
    collector.patience whole.1 state < collector.calls limit whole.1 state →
    (collector.answers whole.1 state)[collector.patience whole.1 state]? = some (.failed e) →
    plain.2 = .error e
  limited : collector.calls limit whole.1 state ≤ collector.patience whole.1 state →
    limit = some (collector.calls limit whole.1 state) → plain.2 = .ok ()
  finished : collector.calls limit whole.1 state ≤ collector.patience whole.1 state →
    limit ≠ some (collector.calls limit whole.1 state) → plain.2 = whole.2

namespace Findings

variable {σ : Type}

def run (findings : Findings Row) (limit : Option Nat) (collector : Collector σ) (state : σ) :
    σ × Except MatchError Unit :=
  let ended := visitEach (collector.limited limit) findings (0, state)
  (ended.1.2, ended.2.result)

theorem run_eq (findings : Findings Row) {limit : Option Nat} (positive : limit ≠ some 0)
    (collector : Collector σ) (state : σ) :
    let count := collector.calls limit findings.leading state
    findings.run limit collector state =
      (collector.after (findings.leading.take count) state,
        if collector.patience findings.leading state < count then
          Outcome.result ((collector.answers findings.leading state)[
            collector.patience findings.leading state]?.getD .next)
        else if limit = some count then .ok () else findings.ending.result) := by
  have room : ∀ k, limit = some k → 0 < k := by
    rintro k rfl
    exact Nat.pos_of_ne_zero fun zero => positive (congrArg some zero)
  have unused : limit.map (· - 0) = limit := by simp
  have few : collector.calls limit findings.leading state ≤ findings.leading.length :=
    Nat.le_trans (Nat.min_le_right _ _) (Nat.min_le_right _ _)
  dsimp only [run]
  rw [visitEach_eq_leading, collector.visitAll_limited limit findings.leading 0 state room, unused,
    Nat.zero_add]
  by_cases cut : collector.patience findings.leading state <
      collector.calls limit findings.leading state
  · obtain ⟨answer, there, ends⟩ :=
      collector.exists_answer findings.leading state (Nat.lt_of_lt_of_le cut few)
    simp only [if_pos cut, there, Option.getD_some]
    cases answer with
    | next => exact absurd rfl ends
    | stop => rfl
    | failed e => rfl
  · simp only [if_neg cut]
    by_cases full : limit = some (collector.calls limit findings.leading state)
    · simp only [if_pos full]
      rfl
    · simp only [if_neg full]

theorem run_eq_of_leading {findings : Findings Row} (nothing : findings.leading = [])
    {limit : Option Nat} (positive : limit ≠ some 0) (collector : Collector σ) (state : σ) :
    findings.run limit collector state = (state, findings.ending.result) := by
  have calls : collector.calls limit [] state = 0 := by simp [Collector.calls]
  rw [run_eq findings positive, nothing, calls, List.take_zero, if_neg (Nat.not_lt_zero _),
    if_neg positive]
  rfl

theorem run_rows (findings : Findings Row) :
    findings.run none Collector.rows [] = (findings.leading, findings.ending.result) := by
  rw [run_eq findings (by simp)]
  simp [Collector.calls, Collector.patience_rows, Collector.after_rows]

theorem run_cutShort (findings : Findings Row) {limit : Option Nat} (positive : limit ≠ some 0)
    (collector : Collector σ) (state : σ) :
    collector.CutShort limit state (findings.run none .rows [])
      (findings.run limit collector.traced ([], state)) (findings.run limit collector state) := by
  have same_patience : collector.traced.patience findings.leading ([], state) =
      collector.patience findings.leading state := by
    rw [Collector.patience, Collector.patience, collector.answers_traced]
  have same_calls : collector.traced.calls limit findings.leading ([], state) =
      collector.calls limit findings.leading state := by
    rw [Collector.calls, Collector.calls, same_patience]
  simp only [run_rows, run_eq findings positive, same_calls, same_patience,
    collector.answers_traced, collector.after_traced, List.nil_append]
  exact {
    calls := rfl
    same := rfl
    gathered := rfl
    stopped := fun cut there => by simp only [if_pos cut, there]; rfl
    refused := fun e cut there => by simp only [if_pos cut, there]; rfl
    limited := fun within full => by simp only [if_neg (Nat.not_lt.mpr within), if_pos full]
    finished := fun within open_end => by
      simp only [if_neg (Nat.not_lt.mpr within), if_neg open_end] }

theorem ok_mem_of_call {findings : Findings Row} {limit : Option Nat} (positive : limit ≠ some 0)
    {collector : Collector σ} {state : σ} {row : Row}
    (called : row ∈ (findings.run limit collector.traced ([], state)).1.1) : .ok row ∈ findings := by
  have cut := findings.run_cutShort positive collector state
  rw [cut.calls, run_rows] at called
  exact ok_mem_of_mem_leading (List.mem_of_mem_take called)

theorem run_eq_error {findings : Findings Row} {limit : Option Nat} (positive : limit ≠ some 0)
    {collector : Collector σ} {state : σ} {e : MatchError}
    (failed : (findings.run limit collector state).2 = .error e) :
    .error e ∈ findings ∨ ∃ rows row,
      (findings.run limit collector.traced ([], state)).1.1 = rows ++ [row] ∧
        (collector row (collector.after rows state)).2 = .failed e := by
  have cut := findings.run_cutShort positive collector state
  rw [run_rows] at cut
  rcases Nat.lt_or_ge (collector.patience findings.leading state)
    (collector.calls limit findings.leading state) with ends | within
  · have few : collector.calls limit findings.leading state ≤
        collector.patience findings.leading state + 1 :=
      Nat.le_trans (Nat.min_le_right _ _) (Nat.min_le_left _ _)
    have bound : collector.calls limit findings.leading state ≤ findings.leading.length :=
      Nat.le_trans (Nat.min_le_right _ _) (Nat.min_le_right _ _)
    have exactly : collector.calls limit findings.leading state =
        collector.patience findings.leading state + 1 := by omega
    obtain ⟨answer, there, goes_on⟩ := collector.exists_answer findings.leading state (by omega)
    have refused : answer = .failed e := by
      cases answer with
      | next => exact absurd rfl goes_on
      | stop =>
          rw [cut.stopped ends there] at failed
          cases failed
      | failed e' =>
          rw [cut.refused e' ends there] at failed
          cases failed
          rfl
    rw [collector.getElem?_answers] at there
    obtain ⟨row, at_row, answered⟩ := Option.map_eq_some_iff.mp there
    refine .inr ⟨_, row, ?_, answered.trans refused⟩
    rw [cut.calls, exactly, List.take_add_one, at_row]
    rfl
  · refine .inl ?_
    rcases Decidable.em (limit = some (collector.calls limit findings.leading state)) with
      full | open_end
    · rw [cut.limited within full] at failed
      cases failed
    · rw [cut.finished within open_end] at failed
      cases ending : findings.ending with
      | next =>
          rw [ending] at failed
          cases failed
      | stop => exact absurd ending findings.ending_ne_stop
      | failed e' =>
          rw [ending] at failed
          cases failed
          exact error_mem_of_ending ending

end Findings

namespace PathPattern

theorem run_eq_rows_run {σ : Type} (p : PathPattern) (g : Graph) (symbols : Symbols)
    (options : MatchOptions) (positive : options.limit ≠ some 0) (collector : Collector σ)
    (state : σ) : p.run g symbols options collector state =
      (p.rows g ⟨symbols, ∅⟩ options.pivot).run options.limit collector state := by
  rw [run, search_eq_limited positive]
  rfl

theorem ok_mem_of_call {σ : Type} {p : PathPattern} {g : Graph} {scope : Scope}
    {options : MatchOptions} {collector : Collector σ} {state : σ} {row : Row}
    (called : row ∈ (p.search g scope options collector.traced ([], state)).1.1) :
    .ok row ∈ p.rows g scope options.pivot := by
  rcases Decidable.em (options.limit = some 0) with nothing | positive
  · rw [search] at called
    cases checked : p.check? scope with
    | error e =>
        rw [checked] at called
        cases called
    | ok =>
        simp only [checked, nothing, ↓reduceIte] at called
        cases called
  · rw [search_eq_limited positive] at called
    exact Findings.ok_mem_of_call positive called

end PathPattern

namespace Clause

def rows (clause : Clause) (g : Graph) (symbols : Symbols) : Findings Row :=
  if clause.parts.isEmpty then [.error (.invalidPattern .noParts)]
  else rowsFrom g symbols clause.parts .empty

theorem run_eq_rows_run {σ : Type} (clause : Clause) (g : Graph) (symbols : Symbols)
    (options : MatchOptions) (positive : options.limit ≠ some 0) (collector : Collector σ)
    (state : σ) : clause.run g symbols options collector state =
      (clause.rows g symbols).run options.limit collector state := by
  rw [run_eq, rows]
  split
  · rfl
  · simp only [search_eq]
    rfl

end Clause

theorem runs_cutShort {σ : Type} (g : Graph) (symbols : Symbols) (pivot limit : Option Nat)
    (positive : limit ≠ some 0) (collector : Collector σ) (state : σ) :
    (∀ p : PathPattern, collector.CutShort limit state
      (p.run g symbols ⟨pivot, none⟩ .rows [])
      (p.run g symbols ⟨pivot, limit⟩ collector.traced ([], state))
      (p.run g symbols ⟨pivot, limit⟩ collector state)) ∧
    ∀ clause : Clause, collector.CutShort limit state
      (clause.run g symbols ⟨pivot, none⟩ .rows [])
      (clause.run g symbols ⟨pivot, limit⟩ collector.traced ([], state))
      (clause.run g symbols ⟨pivot, limit⟩ collector state) := by
  refine ⟨fun p => ?_, fun clause => ?_⟩
  · simp only [p.run_eq_rows_run g symbols ⟨pivot, none⟩ (by simp),
      p.run_eq_rows_run g symbols ⟨pivot, limit⟩ positive]
    exact Findings.run_cutShort _ positive collector state
  · simp only [clause.run_eq_rows_run g symbols ⟨pivot, none⟩ (by simp),
      clause.run_eq_rows_run g symbols ⟨pivot, limit⟩ positive]
    exact Findings.run_cutShort _ positive collector state

def Collector.endingSecond (answer : Outcome) : Collector Nat := fun _ n =>
  (n + 1, if n = 1 then answer else .next)

theorem runs_cutShort_pair :
    let refusal : MatchError := .predicate "refused"
    let hopEnds (limit : Option Nat) (answer : Outcome) :=
      PathPattern.hop.run .pair ∅ ⟨none, limit⟩ (Collector.endingSecond answer) 0
    let hopCut (limit : Option Nat) (answer : Outcome) :=
      (Collector.endingSecond answer).CutShort limit 0
        (PathPattern.hop.run .pair ∅ ⟨none, none⟩ .rows [])
        (PathPattern.hop.run .pair ∅ ⟨none, limit⟩ (Collector.endingSecond answer).traced ([], 0))
        (hopEnds limit answer)
    let clauseEnds (limit : Option Nat) (answer : Outcome) :=
      Clause.hopBeside.run .pair ∅ ⟨none, limit⟩ (Collector.endingSecond answer) 0
    let clauseCut (limit : Option Nat) (answer : Outcome) :=
      (Collector.endingSecond answer).CutShort limit 0
        (Clause.hopBeside.run .pair ∅ ⟨none, none⟩ .rows [])
        (Clause.hopBeside.run .pair ∅ ⟨none, limit⟩ (Collector.endingSecond answer).traced ([], 0))
        (clauseEnds limit answer)
    (some 1 ≠ some 0 ∧ some 3 ≠ some 0 ∧ none ≠ some 0) ∧
      (PathPattern.hop.run .pair ∅ ⟨none, none⟩ .rows []).1.length = 2 ∧
      (hopEnds (some 1) .next = (1, .ok ()) ∧ hopCut (some 1) .next) ∧
      (hopEnds none (.failed refusal) = (2, .error refusal) ∧ hopCut none (.failed refusal)) ∧
      (Clause.hopBeside.run .pair ∅ ⟨none, none⟩ .rows []).1.length = 4 ∧
      (clauseEnds (some 3) .next = (3, .ok ()) ∧ clauseCut (some 3) .next) ∧
      (clauseEnds (some 3) .stop = (2, .ok ()) ∧ clauseCut (some 3) .stop) ∧
      clauseEnds none (.failed refusal) = (2, .error refusal) ∧
      clauseCut none (.failed refusal) := by
  intro refusal hopEnds hopCut clauseEnds clauseCut
  have one : some 1 ≠ some 0 := by decide
  have three : some 3 ≠ some 0 := by decide
  have unlimited : none ≠ some 0 := by decide
  have cut (limit : Option Nat) (positive : limit ≠ some 0) (answer : Outcome) :
      hopCut limit answer ∧ clauseCut limit answer := by
    obtain ⟨patterns, clauses⟩ :=
      runs_cutShort .pair ∅ none limit positive (Collector.endingSecond answer) 0
    exact ⟨patterns .hop, clauses .hopBeside⟩
  exact ⟨⟨one, three, unlimited⟩, by decide, ⟨by decide, (cut _ one _).1⟩,
    ⟨by decide, (cut _ unlimited _).1⟩, by decide +kernel, ⟨by decide +kernel, (cut _ three _).2⟩,
    ⟨by decide +kernel, (cut _ three _).2⟩, by decide +kernel, (cut _ unlimited _).2⟩

end PropertyGraph
