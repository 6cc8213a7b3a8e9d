import PropertyGraph.Match.Outcome
import Mathlib.Data.List.Nodup

/-!
What a search comes across, as a list: things found, and errors. A search that hands what it finds
to a visitor is the visit of its findings, one after the other; nested searches nest their findings.
-/

namespace PropertyGraph

abbrev Findings (α : Type) := List (Except MatchError α)

def visitEach {α σ : Type} (visit : α → Visit σ) : Findings α → Visit σ :=
  visitAll fun
    | .ok a => visit a
    | .error e => fun s => (s, .failed e)

namespace Findings

variable {α β : Type}

def andThen (findings : Findings α) (next : α → Findings β) : Findings β :=
  findings.flatMap fun
    | .ok a => next a
    | .error e => [.error e]

def Clean (findings : Findings α) : Prop := ∀ e, .error e ∉ findings

def found (findings : Findings α) : List α := findings.filterMap Except.toOption

def ofFound (found : List (Except Incomparable α)) : Findings α :=
  found.map (Except.mapError .incomparable)

section Members

variable {findings : Findings α} {next : α → Findings β}

theorem mem_found {a : α} : a ∈ findings.found ↔ .ok a ∈ findings := by
  rw [found, List.mem_filterMap]
  constructor
  · rintro ⟨item, mem, eq⟩
    cases item with
    | error e => cases eq
    | ok b =>
        cases eq
        exact mem
  · exact fun mem => ⟨.ok a, mem, rfl⟩

theorem nodup_found (nodup : findings.Nodup) : findings.found.Nodup := by
  refine nodup.filterMap fun x y a at_x at_y => ?_
  cases x with
  | error e => cases at_x
  | ok b =>
      cases y with
      | error e => cases at_y
      | ok c =>
          cases at_x
          cases at_y
          rfl

@[simp] theorem found_cons_ok (a : α) (rest : Findings α) :
    found (.ok a :: rest) = a :: found rest := rfl

theorem found_append (as bs : Findings α) : found (as ++ bs) = found as ++ found bs :=
  List.filterMap_append

theorem found_andThen :
    (findings.andThen next).found = findings.found.flatMap fun a => (next a).found := by
  induction findings with
  | nil => rfl
  | cons item rest ih =>
      rw [andThen, List.flatMap_cons, found_append]
      cases item with
      | error e => exact ih
      | ok a => exact congrArg ((next a).found ++ ·) ih

theorem andThen_assoc {γ : Type} (findings : Findings α) (first : α → Findings β)
    (second : β → Findings γ) : (findings.andThen first).andThen second =
      findings.andThen fun a => (first a).andThen second := by
  rw [andThen, andThen, andThen, List.flatMap_assoc]
  refine List.flatMap_congr fun item _ => ?_
  cases item with
  | error e => rfl
  | ok a => rfl

theorem andThen_ok (findings : Findings α) : (findings.andThen fun a => [.ok a]) = findings := by
  induction findings with
  | nil => rfl
  | cons item rest ih =>
      rw [andThen, List.flatMap_cons]
      cases item with
      | error e => exact congrArg (.error e :: ·) ih
      | ok a => exact congrArg (.ok a :: ·) ih

theorem ok_mem_andThen {b : β} :
    .ok b ∈ findings.andThen next ↔ ∃ a, .ok a ∈ findings ∧ .ok b ∈ next a := by
  rw [andThen, List.mem_flatMap]
  constructor
  · rintro ⟨item, mem, reached⟩
    cases item with
    | error e => cases List.mem_singleton.mp reached
    | ok a => exact ⟨a, mem, reached⟩
  · rintro ⟨a, mem, reached⟩
    exact ⟨.ok a, mem, reached⟩

theorem error_mem_andThen {e : MatchError} :
    .error e ∈ findings.andThen next ↔
      .error e ∈ findings ∨ ∃ a, .ok a ∈ findings ∧ .error e ∈ next a := by
  rw [andThen, List.mem_flatMap]
  constructor
  · rintro ⟨item, mem, reached⟩
    cases item with
    | error e' =>
        cases List.mem_singleton.mp reached
        exact .inl mem
    | ok a => exact .inr ⟨a, mem, reached⟩
  · rintro (mem | ⟨a, mem, reached⟩)
    · exact ⟨.error e, mem, List.mem_singleton_self _⟩
    · exact ⟨.ok a, mem, reached⟩

theorem Clean.of_andThen (clean : (findings.andThen next).Clean) : findings.Clean :=
  fun e mem => clean e (error_mem_andThen.mpr (.inl mem))

theorem Clean.each (clean : (findings.andThen next).Clean) {a : α} (mem : .ok a ∈ findings) :
    (next a).Clean :=
  fun e failed => clean e (error_mem_andThen.mpr (.inr ⟨a, mem, failed⟩))

theorem nodup_andThen (clean : findings.Clean) (nodup : findings.Nodup)
    (each : ∀ a, .ok a ∈ findings → (next a).Nodup)
    (apart : ∀ a b x, .ok a ∈ findings → .ok b ∈ findings → x ∈ next a → x ∈ next b → a = b) :
    (findings.andThen next).Nodup := by
  rw [andThen, List.nodup_flatMap]
  refine ⟨fun item mem => ?_, nodup.imp_of_mem fun {x y} mem_x mem_y ne => ?_⟩
  · cases item with
    | error e => exact absurd mem (clean e)
    | ok a => exact each a mem
  · cases x with
    | error e => exact absurd mem_x (clean e)
    | ok a =>
        cases y with
        | error e => exact absurd mem_y (clean e)
        | ok b =>
            intro item in_a in_b
            exact ne (congrArg Except.ok (apart a b item mem_x mem_y in_a in_b))

theorem ok_mem_ofFound {found : List (Except Incomparable α)} {a : α} :
    .ok a ∈ ofFound found ↔ .ok a ∈ found := by
  rw [ofFound, List.mem_map]
  constructor
  · rintro ⟨item, mem, eq⟩
    cases item with
    | error e => cases eq
    | ok b =>
        cases eq
        exact mem
  · exact fun mem => ⟨.ok a, mem, rfl⟩

theorem Clean.of_ofFound {found : List (Except Incomparable α)} (clean : (ofFound found).Clean) :
    ∀ e, .error e ∉ found :=
  fun e mem => clean (.incomparable e) (List.mem_map.mpr ⟨.error e, mem, rfl⟩)

theorem nodup_ofFound {found : List (Except Incomparable α)} (nodup : found.Nodup) :
    (ofFound found).Nodup := by
  refine nodup.map fun x y eq => ?_
  cases x <;> cases y <;> cases eq <;> rfl

theorem ok_mem_map_ok {l : List α} {a : α} : .ok a ∈ (l.map .ok : Findings α) ↔ a ∈ l := by
  rw [List.mem_map]
  constructor
  · rintro ⟨b, mem, eq⟩
    cases eq
    exact mem
  · exact fun mem => ⟨a, mem, rfl⟩

theorem nodup_map_ok {l : List α} (nodup : l.Nodup) : (l.map .ok : Findings α).Nodup :=
  nodup.map fun _ _ eq => Except.ok.inj eq

end Members

end Findings

section Mapped

variable {α β : Type} {f : α → β} {findings : Findings α}

theorem ok_mem_map_map {b : β} :
    .ok b ∈ findings.map (Except.map f) ↔ ∃ a, .ok a ∈ findings ∧ f a = b := by
  rw [List.mem_map]
  constructor
  · rintro ⟨item, mem, eq⟩
    cases item with
    | error e => cases eq
    | ok a =>
        cases eq
        exact ⟨a, mem, rfl⟩
  · rintro ⟨a, mem, rfl⟩
    exact ⟨.ok a, mem, rfl⟩

theorem clean_of_map_map (clean : Findings.Clean (findings.map (Except.map f))) :
    findings.Clean :=
  fun e mem => clean e (List.mem_map.mpr ⟨.error e, mem, rfl⟩)

theorem nodup_map_map
    (injective : ∀ a b, .ok a ∈ findings → .ok b ∈ findings → f a = f b → a = b)
    (nodup : findings.Nodup) : (findings.map (Except.map f)).Nodup := by
  refine nodup.map_on fun x mem_x y mem_y eq => ?_
  cases x with
  | error e =>
      cases y with
      | error e' =>
          cases eq
          rfl
      | ok b => cases eq
  | ok a =>
      cases y with
      | error e => cases eq
      | ok b => exact congrArg Except.ok (injective a b mem_x mem_y (Except.ok.inj eq))

end Mapped

section Visiting

open Findings

variable {α β σ : Type}

theorem visitAll_append (visit : α → Visit σ) (as bs : List α) (s : σ) :
    visitAll visit (as ++ bs) s =
      match visitAll visit as s with
      | (s, .next) => visitAll visit bs s
      | ended => ended := by
  induction as generalizing s with
  | nil => rfl
  | cons a rest ih =>
      rw [List.cons_append, visitAll, visitAll]
      rcases visit a s with ⟨s', _ | _ | e⟩
      · exact ih s'
      · rfl
      · rfl

theorem visitAll_flatMap (visit : β → Visit σ) (f : α → List β) (as : List α) (s : σ) :
    visitAll visit (as.flatMap f) s = visitAll (fun a => visitAll visit (f a)) as s := by
  induction as generalizing s with
  | nil => rfl
  | cons a rest ih =>
      rw [List.flatMap_cons, visitAll_append, visitAll]
      rcases visitAll visit (f a) s with ⟨s', _ | _ | e⟩
      · exact ih s'
      · rfl
      · rfl

theorem visitAll_map (visit : β → Visit σ) (f : α → β) (as : List α) (s : σ) :
    visitAll visit (as.map f) s = visitAll (fun a => visit (f a)) as s := by
  induction as generalizing s with
  | nil => rfl
  | cons a rest ih =>
      rw [List.map_cons, visitAll, visitAll]
      rcases visit (f a) s with ⟨s', _ | _ | e⟩
      · exact ih s'
      · rfl
      · rfl

theorem visitAll_congr {visit visit' : α → Visit σ} {as : List α}
    (same : ∀ a ∈ as, ∀ s, visit a s = visit' a s) (s : σ) :
    visitAll visit as s = visitAll visit' as s := by
  induction as generalizing s with
  | nil => rfl
  | cons a rest ih =>
      have later := ih fun a mem => same a (List.mem_cons_of_mem _ mem)
      rw [visitAll, visitAll, same a List.mem_cons_self]
      rcases visit' a s with ⟨s', _ | _ | e⟩
      · exact later s'
      · rfl
      · rfl

theorem visitEach_ok (visit : α → Visit σ) (l : List α) (s : σ) :
    visitEach visit (l.map .ok) s = visitAll visit l s := visitAll_map _ _ _ _

theorem visitFound_eq (visit : α → Visit σ) (found : List (Except Incomparable α)) (s : σ) :
    visitFound visit found s = visitEach visit (.ofFound found) s := by
  rw [visitFound, visitEach, Findings.ofFound, visitAll_map]
  refine visitAll_congr (fun item _ s => ?_) s
  cases item <;> rfl

theorem visitEach_cons_ok (visit : α → Visit σ) (a : α) (rest : Findings α) (s : σ) :
    visitEach visit (.ok a :: rest) s =
      match visit a s with
      | (s, .next) => visitEach visit rest s
      | ended => ended := rfl

theorem visitEach_append (visit : α → Visit σ) (as bs : Findings α) (s : σ) :
    visitEach visit (as ++ bs) s =
      match visitEach visit as s with
      | (s, .next) => visitEach visit bs s
      | ended => ended := visitAll_append _ _ _ _

theorem visitEach_andThen (visit : β → Visit σ) (findings : Findings α) (next : α → Findings β)
    (s : σ) : visitEach visit (findings.andThen next) s =
      visitEach (fun a => visitEach visit (next a)) findings s := by
  rw [visitEach, Findings.andThen, visitAll_flatMap]
  refine visitAll_congr (fun item _ s => ?_) s
  cases item <;> rfl

theorem visitEach_map (visit : β → Visit σ) (f : α → β) (findings : Findings α) (s : σ) :
    visitEach visit (findings.map (Except.map f)) s = visitEach (fun a => visit (f a)) findings s := by
  rw [visitEach, visitAll_map]
  refine visitAll_congr (fun item _ s => ?_) s
  cases item <;> rfl

theorem visitEach_congr {visit visit' : α → Visit σ} {findings : Findings α}
    (same : ∀ a, .ok a ∈ findings → ∀ s, visit a s = visit' a s) (s : σ) :
    visitEach visit findings s = visitEach visit' findings s := by
  refine visitAll_congr (fun item mem s => ?_) s
  cases item with
  | error e => rfl
  | ok a => exact same a mem s

theorem visitEach_framed {τ : Type} (frame : σ → τ) {visit : α → Visit τ} {out : α → Visit σ}
    {findings : Findings α}
    (same : ∀ a, .ok a ∈ findings → ∀ s, visit a (frame s) = (frame (out a s).1, (out a s).2))
    (s : σ) : visitEach visit findings (frame s) =
      (frame (visitEach out findings s).1, (visitEach out findings s).2) := by
  induction findings generalizing s with
  | nil => rfl
  | cons item rest ih =>
      cases item with
      | error e => rfl
      | ok a =>
          rw [visitEach_cons_ok, visitEach_cons_ok, same a List.mem_cons_self]
          rcases out a s with ⟨s', _ | _ | e⟩
          · exact ih (fun a mem => same a (List.mem_cons_of_mem _ mem)) s'
          · rfl
          · rfl

theorem visitEach_next {visit : α → Visit σ} (goes_on : ∀ a s, (visit a s).2 = .next)
    {findings : Findings α} (clean : findings.Clean) (s : σ) :
    visitEach visit findings s = (findings.found.foldl (fun s a => (visit a s).1) s, .next) := by
  induction findings generalizing s with
  | nil => rfl
  | cons item rest ih =>
      cases item with
      | error e => exact absurd List.mem_cons_self (clean e)
      | ok a =>
          have goes_on_here := goes_on a s
          have clean_rest : Findings.Clean rest := fun e mem => clean e (List.mem_cons_of_mem _ mem)
          rw [visitEach_cons_ok, found_cons_ok, List.foldl_cons]
          generalize visit a s = visited at goes_on_here ⊢
          obtain ⟨s', outcome⟩ := visited
          cases goes_on_here
          exact ih clean_rest s'

theorem clean_of_visitEach {visit : α → Visit σ} (goes_on : ∀ a s, (visit a s).2 = .next)
    {findings : Findings α} {s : σ} (ok : ∀ e, (visitEach visit findings s).2 ≠ .failed e) :
    findings.Clean := by
  induction findings generalizing s with
  | nil =>
      intro e mem
      cases mem
  | cons item rest ih =>
      cases item with
      | error e => exact absurd rfl (ok e)
      | ok a =>
          have goes_on_here := goes_on a s
          rw [visitEach_cons_ok] at ok
          generalize visit a s = visited at goes_on_here ok
          obtain ⟨s', outcome⟩ := visited
          cases goes_on_here
          intro e mem
          rcases List.mem_cons.mp mem with eq | mem
          · cases eq
          · exact ih ok e mem

end Visiting

end PropertyGraph
