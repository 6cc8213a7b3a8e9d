import PropertyGraph.Proofs.Match.Stopping

namespace PropertyGraph

section Take

variable {α : Type} {p : α → Bool}

theorem filter_eq_append (p : α → Bool) (l : List α) (k : Nat) :
    l.filter p = (l.take k).filter p ++ (l.drop k).filter p := by
  rw [← List.filter_append, List.take_append_drop]

theorem length_filter_take_le (p : α → Bool) (l : List α) (k : Nat) :
    ((l.take k).filter p).length ≤ k :=
  (List.length_filter_le _ _).trans (List.length_take_le _ _)

theorem filter_take_eq_iff {l : List α} {k : Nat} :
    (l.take k).filter p = (l.filter p).take k ↔
      (∀ a ∈ l.take k, p a = true) ∨ ∀ a ∈ l.drop k, p a = false := by
  have few := length_filter_take_le p l k
  have first : (l.filter p).take k = (l.take k).filter p ++
      ((l.drop k).filter p).take (k - ((l.take k).filter p).length) := by
    rw [filter_eq_append p l k, List.take_append, List.take_of_length_le few]
  rw [first, List.self_eq_append_right, List.take_eq_nil_iff]
  constructor
  · rintro (full | nothing)
    · refine .inl (List.length_filter_eq_length_iff.mp ?_)
      have short := List.length_take_le k l
      have kept := List.length_filter_le p (l.take k)
      omega
    · refine .inr fun a mem => ?_
      exact Bool.eq_false_iff.mpr (List.filter_eq_nil_iff.mp nothing a mem)
  · rintro (all | nothing)
    · rcases Nat.le_total k l.length with enough | few
      · left
        rw [List.length_filter_eq_length_iff.mpr all, List.length_take_of_le enough, Nat.sub_self]
      · right
        rw [List.drop_of_length_le few, List.filter_nil]
    · exact .inr (List.filter_eq_nil_iff.mpr fun a mem => by simp [nothing a mem])

end Take

namespace Collector

def keeping (accepts : Bindings → Bool) : Collector (List Row) :=
  Collector.rows.filtered fun bindings => .ok (accepts bindings)

variable (accepts : Bindings → Bool)

theorem keeping_eq (row : Row) (kept : List Row) :
    keeping accepts row kept = (kept ++ [row].filter (accepts ·.bindings), .next) := by
  cases accepted : accepts row.bindings <;> simp [keeping, filtered, rows, accepted]

theorem after_keeping (rows kept : List Row) :
    (keeping accepts).after rows kept = kept ++ rows.filter (accepts ·.bindings) := by
  induction rows generalizing kept with
  | nil => simp [after]
  | cons row rest ih =>
      rw [after, List.foldl_cons, ← after, ih, keeping_eq, List.append_assoc,
        ← List.filter_append, List.singleton_append]

theorem patience_keeping (rows kept : List Row) :
    (keeping accepts).patience rows kept = rows.length :=
  patience_of_next (fun row state => by rw [keeping_eq]) rows kept

theorem calls_keeping (limit : Option Nat) (rows kept : List Row) :
    (keeping accepts).calls limit rows kept = min (limit.getD rows.length) rows.length := by
  rw [calls, patience_keeping, Nat.min_eq_right (Nat.le_succ _)]

end Collector

/-- What runs that keep the accepted rows come to without a limit and with one, when `whole` is what
the same run finds and how it ends if nothing is filtered. -/
structure LimitsFound (accepts : Bindings → Bool) (k : Nat)
    (whole unlimited limited : List Row × Except MatchError Unit) : Prop where
  filtered : unlimited = (whole.1.filter (accepts ·.bindings), whole.2)
  taken : limited.1 = (whole.1.take k).filter (accepts ·.bindings)
  succeeds : unlimited.2 = .ok () → limited.2 = .ok ()
  first : limited.1 = unlimited.1.take k ↔
    (∀ row ∈ whole.1.take k, accepts row.bindings = true) ∨
      ∀ row ∈ whole.1.drop k, accepts row.bindings = false

section Runs

variable {accepts : Bindings → Bool} {k : Nat}

theorem limitsFound {whole unlimited limited : List Row × Except MatchError Unit}
    (filtered : unlimited = (whole.1.filter (accepts ·.bindings), whole.2))
    (taken : limited.1 = (whole.1.take k).filter (accepts ·.bindings))
    (succeeds : unlimited.2 = .ok () → limited.2 = .ok ()) :
    LimitsFound accepts k whole unlimited limited := by
  refine ⟨filtered, taken, succeeds, ?_⟩
  rw [taken, filtered]
  exact filter_take_eq_iff

namespace Findings

theorem run_keeping (accepts : Bindings → Bool) (findings : Findings Row) {limit : Option Nat}
    (positive : limit ≠ some 0) : findings.run limit (.keeping accepts) [] =
      ((findings.leading.take (limit.getD findings.leading.length)).filter (accepts ·.bindings),
        if limit.any (· ≤ findings.leading.length) then .ok () else findings.ending.result) := by
  have within : ¬findings.leading.length < min (limit.getD findings.leading.length)
      findings.leading.length := Nat.not_lt.mpr (Nat.min_le_right _ _)
  have full : limit = some (min (limit.getD findings.leading.length) findings.leading.length) ↔
      limit.any (· ≤ findings.leading.length) = true := by
    cases limit <;> simp
  rw [run_eq findings positive]
  simp only [Collector.calls_keeping, Collector.after_keeping, Collector.patience_keeping,
    if_neg within, full, List.nil_append]
  rw [← List.take_take, List.take_length]

theorem limitsFound_run (accepts : Bindings → Bool) (findings : Findings Row) (positive : k ≠ 0) :
    LimitsFound accepts k (findings.run none .rows []) (findings.run none (.keeping accepts) [])
      (findings.run (some k) (.keeping accepts) []) := by
  have counted : some k ≠ some 0 := fun eq => positive (Option.some.inj eq)
  rw [run_rows, run_keeping accepts findings (by simp), run_keeping accepts findings counted]
  refine limitsFound ?_ rfl fun ended => ?_
  · simp
  · simp only [Option.any_none, Bool.false_eq_true, if_false] at ended
    simp only [ended, ite_self]

end Findings

theorem PathPattern.run_limit_zero {σ : Type} (p : PathPattern) (g : Graph) (symbols : Symbols)
    (pivot : Option Nat) (collector : Collector σ) (state : σ) :
    p.run g symbols ⟨pivot, some 0⟩ collector state = (state, p.check? ⟨symbols, ∅⟩) := by
  rw [run, search]
  cases p.check? ⟨symbols, ∅⟩ <;> rfl

theorem PathPattern.check?_of_run {σ : Type} {p : PathPattern} {g : Graph} {symbols : Symbols}
    {options : MatchOptions} {collector : Collector σ} {state : σ}
    (ended : (p.run g symbols options collector state).2 = .ok ()) :
    p.check? ⟨symbols, ∅⟩ = .ok () := by
  cases checked : p.check? ⟨symbols, ∅⟩ with
  | ok _ => rfl
  | error e =>
      rw [run, search, checked] at ended
      cases ended

theorem PathPattern.limitsFound_run (accepts : Bindings → Bool) (p : PathPattern) (g : Graph)
    (symbols : Symbols) (pivot : Option Nat) (k : Nat) :
    LimitsFound accepts k (p.run g symbols ⟨pivot, none⟩ .rows [])
      (p.run g symbols ⟨pivot, none⟩ (.keeping accepts) [])
      (p.run g symbols ⟨pivot, some k⟩ (.keeping accepts) []) := by
  have found := (p.rows g ⟨symbols, ∅⟩ pivot).limitsFound_run accepts Nat.one_ne_zero
  cases k with
  | zero =>
      rw [p.run_limit_zero, p.run_eq_rows_run _ _ _ (by simp), p.run_eq_rows_run _ _ _ (by simp)]
      refine limitsFound found.filtered (by simp) fun ended => ?_
      rw [← p.run_eq_rows_run g symbols ⟨pivot, none⟩ (by simp)] at ended
      exact check?_of_run ended
  | succ k =>
      simp only [p.run_eq_rows_run g symbols ⟨pivot, none⟩ (by simp),
        p.run_eq_rows_run g symbols ⟨pivot, some (k + 1)⟩ (by simp)]
      exact Findings.limitsFound_run accepts _ k.succ_ne_zero

theorem Clause.limitsFound_run (accepts : Bindings → Bool) (clause : Clause) (g : Graph)
    (symbols : Symbols) (pivot : Option Nat) (k : Nat) :
    LimitsFound accepts k (clause.run g symbols ⟨pivot, none⟩ .rows [])
      (clause.run g symbols ⟨pivot, none⟩ (.keeping accepts) [])
      (clause.run g symbols ⟨pivot, some k⟩ (.keeping accepts) []) := by
  have found := (clause.rows g symbols).limitsFound_run accepts Nat.one_ne_zero
  cases k with
  | zero =>
      simp only [clause.run_eq_rows_run g symbols ⟨pivot, none⟩ (by simp)]
      rw [run]
      split
      · rename_i empty
        refine limitsFound found.filtered (by simp) fun ended => ?_
        rw [rows, if_pos empty] at ended
        cases ended
      · exact limitsFound found.filtered (by simp) fun _ => rfl
  | succ k =>
      simp only [clause.run_eq_rows_run g symbols ⟨pivot, none⟩ (by simp),
        clause.run_eq_rows_run g symbols ⟨pivot, some (k + 1)⟩ (by simp)]
      exact Findings.limitsFound_run accepts _ k.succ_ne_zero

theorem limits_count_rejected (accepts : Bindings → Bool) (g : Graph) (symbols : Symbols)
    (pivot : Option Nat) (k : Nat) :
    (∀ p : PathPattern, LimitsFound accepts k (p.run g symbols ⟨pivot, none⟩ .rows [])
      (p.run g symbols ⟨pivot, none⟩ (.keeping accepts) [])
      (p.run g symbols ⟨pivot, some k⟩ (.keeping accepts) [])) ∧
    ∀ clause : Clause, LimitsFound accepts k (clause.run g symbols ⟨pivot, none⟩ .rows [])
      (clause.run g symbols ⟨pivot, none⟩ (.keeping accepts) [])
      (clause.run g symbols ⟨pivot, some k⟩ (.keeping accepts) []) :=
  ⟨fun p => p.limitsFound_run accepts g symbols pivot k,
    fun clause => clause.limitsFound_run accepts g symbols pivot k⟩

def PathPattern.lone : PathPattern := .ofNode (.named .any "x")

def Bindings.atSecond (bindings : Bindings) : Bool := bindings.get? "x" = some (.node ⟨1⟩)

theorem limits_count_rejected_pair :
    let alone (limit : Option Nat) := PathPattern.lone.run .pair ∅ ⟨none, limit⟩
    let joined (limit : Option Nat) := (Clause.mk [.lone]).run .pair ∅ ⟨none, limit⟩
    ((alone none .rows []).1.map Row.path = [[.node ⟨0⟩], [.node ⟨1⟩]] ∧
      (alone none (.keeping Bindings.atSecond) []).1.map Row.path = [[.node ⟨1⟩]] ∧
      alone (some 1) (.keeping Bindings.atSecond) [] = ([], .ok ()) ∧
      LimitsFound Bindings.atSecond 1 (alone none .rows [])
        (alone none (.keeping Bindings.atSecond) [])
        (alone (some 1) (.keeping Bindings.atSecond) [])) ∧
    (joined none .rows []).1.map Row.path = [[.node ⟨0⟩], [.node ⟨1⟩]] ∧
      (joined none (.keeping Bindings.atSecond) []).1.map Row.path = [[.node ⟨1⟩]] ∧
      joined (some 1) (.keeping Bindings.atSecond) [] = ([], .ok ()) ∧
      LimitsFound Bindings.atSecond 1 (joined none .rows [])
        (joined none (.keeping Bindings.atSecond) [])
        (joined (some 1) (.keeping Bindings.atSecond) []) := by
  intro alone joined
  obtain ⟨patterns, clauses⟩ := limits_count_rejected Bindings.atSecond .pair ∅ none 1
  exact ⟨⟨by decide, by decide, by decide, patterns .lone⟩, by decide, by decide, by decide,
    clauses ⟨[.lone]⟩⟩

theorem not_limits_count_kept :
    (¬∀ (p : PathPattern) (g : Graph) (accepts : Bindings → Bool) (k : Nat) (rows : List Row),
      g.Reachable → p.run g ∅ ⟨none, none⟩ (.keeping accepts) [] = (rows, .ok ()) →
      p.run g ∅ ⟨none, some k⟩ (.keeping accepts) [] = (rows.take k, .ok ())) ∧
    ¬∀ (clause : Clause) (g : Graph) (accepts : Bindings → Bool) (k : Nat) (rows : List Row),
      g.Reachable → clause.run g ∅ ⟨none, none⟩ (.keeping accepts) [] = (rows, .ok ()) →
      clause.run g ∅ ⟨none, some k⟩ (.keeping accepts) [] = (rows.take k, .ok ()) := by
  -- Of the two nodes the second is accepted, which the limit of one row never lets the run reach.
  have reachable := Graph.reachable_pair
  have whole : (PathPattern.lone.run .pair ∅ ⟨none, none⟩ (.keeping Bindings.atSecond) []) =
      ([⟨[.node ⟨1⟩], .ofList [("x", .node ⟨1⟩)]⟩], .ok ()) := by decide
  have joined : (Clause.mk [.lone]).run .pair ∅ ⟨none, none⟩ (.keeping Bindings.atSecond) [] =
      ([⟨[.node ⟨1⟩], .ofList [("x", .node ⟨1⟩)]⟩], .ok ()) := by decide
  constructor
  · intro kept
    exact absurd (kept .lone .pair Bindings.atSecond 1 _ reachable whole) (by decide)
  · intro kept
    exact absurd (kept ⟨[.lone]⟩ .pair Bindings.atSecond 1 _ reachable joined) (by decide)

end Runs

end PropertyGraph
