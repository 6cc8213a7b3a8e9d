import PropertyGraph.Proofs.Match.Scans
import PropertyGraph.Proofs.Match.Steps

namespace PropertyGraph

namespace Element

variable {g : Graph} {scope : Scope} {ctx : Context} {position : Nat}

theorem startOperator_sound (h : g.Sound) (element : Element) {slot : Slot}
    (mem : .ok slot ∈ (element.startOperator position).slots g scope ctx) :
    element.Admits g slot := by
  cases element with
  | node node => exact Operator.scanNodes_sound mem
  | edge edge =>
      unfold startOperator at mem
      by_cases single : edge.length.isSingleHop = true
      · simp only [single, ↓reduceIte] at mem
        exact Operator.scanEdges_sound single mem
      · simp only [single, Bool.false_eq_true, ↓reduceIte] at mem
        obtain ⟨start, -, found⟩ := List.mem_flatMap.mp mem
        exact Operator.admits_of_mem_pathSlots h found

theorem startOperator_complete (h : g.Sound) (element : Element)
    (clean : ((element.startOperator position).slots g scope ctx).Clean) {slot : Slot}
    (admits : element.Admits g slot)
    (admitted : ∀ n, element.name = some n → scope.Admits n slot.value) :
    .ok slot ∈ (element.startOperator position).slots g scope ctx := by
  cases element with
  | node node => exact Operator.scanNodes_complete h clean admits admitted
  | edge edge =>
      unfold startOperator at clean ⊢
      by_cases single : edge.length.isSingleHop = true
      · simp only [single, ↓reduceIte] at clean ⊢
        exact Operator.scanEdges_complete h single clean admits admitted
      · simp only [single, Bool.false_eq_true, ↓reduceIte] at clean ⊢
        cases slot with
        | node id => exact absurd admits not_false
        | edges ids left right =>
            have joins := admits
            obtain ⟨fits, -, nodes, -, walk⟩ := joins
            have live : left ∈ g.store.nodeIds := by
              cases walk with
              | stay => exact absurd (HopRange.pos_of_contains fits) (Nat.lt_irrefl 0)
              | step leads _ =>
                  exact h.store.mem_nodeIds.mpr
                    (Option.isSome_iff_exists.mp (h.store.hasNode_of_leads leads))
            have clean : (Operator.pathSlots g true edge left).Clean :=
              fun e failed => clean e (List.mem_flatMap.mpr ⟨left, live, failed⟩)
            exact List.mem_flatMap.mpr
              ⟨left, live, (Operator.mem_pathSlots h clean).mpr ⟨admits, rfl⟩⟩

theorem nodup_startOperator (h : g.Sound) (element : Element)
    (clean : ((element.startOperator position).slots g scope ctx).Clean) :
    ((element.startOperator position).slots g scope ctx).Nodup := by
  cases element with
  | node node => exact Operator.nodup_scanNodes h node
  | edge edge =>
      unfold startOperator at clean ⊢
      by_cases single : edge.length.isSingleHop = true
      · simp only [single, ↓reduceIte] at clean ⊢
        exact Operator.nodup_scanEdges h clean
      · simp only [single, Bool.false_eq_true, ↓reduceIte] at clean ⊢
        have clean_at {start : NodeId} (live : start ∈ g.store.nodeIds) :
            (Operator.pathSlots g true edge start).Clean :=
          fun e failed => clean e (List.mem_flatMap.mpr ⟨start, live, failed⟩)
        refine List.nodup_flatMap.mpr ⟨fun start live => Operator.nodup_pathSlots h (clean_at live),
          h.store.nodup_nodeIds.imp_of_mem fun {a b} live_a live_b ne item in_a in_b => ?_⟩
        cases item with
        | error e => exact clean_at live_a e in_a
        | ok slot =>
            have beside_a := ((Operator.mem_pathSlots h (clean_at live_a)).mp in_a).2
            have beside_b := ((Operator.mem_pathSlots h (clean_at live_b)).mp in_b).2
            obtain ⟨ids, far, rfl⟩ := Operator.beside_node_iff.mp beside_a
            exact ne (show a = b from beside_b)

theorem bound_of_clean_stepOperator (element : Element) {anchor : Nat} {forward : Bool}
    (clean : ((element.stepOperator position anchor forward).slots g scope ctx).Clean) :
    ∃ beside, ctx.slot? anchor = some beside := by
  unfold stepOperator at clean
  cases element with
  | node node =>
      rw [Operator.slots] at clean
      cases ends : ctx.anchorEnds? anchor with
      | error e =>
          rw [ends] at clean
          exact absurd (List.mem_singleton_self _) (clean _)
      | ok ends' =>
          obtain ⟨ids, bound⟩ := Operator.anchorEnds?_eq_ok.mp ends
          exact ⟨_, bound⟩
  | edge edge =>
      cases near : ctx.anchorNode? anchor with
      | error e =>
          refine absurd ?_ (clean e)
          by_cases single : edge.length.isSingleHop = true
          · simp [single, Operator.slots, near]
          · simp [single, Operator.slots, near]
      | ok id => exact ⟨_, Operator.anchorNode?_eq_ok.mp near⟩

theorem stepOperator_sound (h : g.Sound) (element : Element) {anchor : Nat} {forward : Bool}
    {slot : Slot}
    (mem : .ok slot ∈ (element.stepOperator position anchor forward).slots g scope ctx) :
    element.Admits g slot := by
  cases element with
  | node node =>
      simp only [stepOperator, Operator.slots] at mem
      split at mem
      · cases List.mem_singleton.mp mem
      · obtain ⟨passes, rfl⟩ := Operator.of_mem_endpointSlots mem
        exact passes
  | edge edge =>
      simp only [stepOperator] at mem
      split at mem
      · rename_i single
        rw [Operator.slots] at mem
        split at mem
        · cases List.mem_singleton.mp mem
        · exact Operator.admits_of_mem_stepSlots h single mem
      · rw [Operator.slots] at mem
        split at mem
        · cases List.mem_singleton.mp mem
        · exact Operator.admits_of_mem_pathSlots h mem

theorem stepOperator_beside (element : Element) {anchor : Nat} {forward : Bool} {slot : Slot}
    (mem : .ok slot ∈ (element.stepOperator position anchor forward).slots g scope ctx) :
    ∃ beside, ctx.slot? anchor = some beside ∧ slot.Beside beside forward := by
  cases element with
  | node node =>
      simp only [stepOperator, Operator.slots] at mem
      split at mem
      · cases List.mem_singleton.mp mem
      · rename_i left right ends
        obtain ⟨ids, bound⟩ := Operator.anchorEnds?_eq_ok.mp ends
        obtain ⟨-, rfl⟩ := Operator.of_mem_endpointSlots mem
        exact ⟨_, bound, by cases forward <;> rfl⟩
  | edge edge =>
      simp only [stepOperator] at mem
      split at mem
      · rw [Operator.slots] at mem
        split at mem
        · cases List.mem_singleton.mp mem
        · rename_i near bound
          exact ⟨_, Operator.anchorNode?_eq_ok.mp bound, Operator.beside_of_mem_stepSlots mem⟩
      · rw [Operator.slots] at mem
        split at mem
        · cases List.mem_singleton.mp mem
        · rename_i start bound
          exact ⟨_, Operator.anchorNode?_eq_ok.mp bound, Operator.beside_of_mem_pathSlots mem⟩

theorem mem_stepOperator (h : g.Sound) (element : Element) {anchor : Nat} {forward : Bool}
    (clean : ((element.stepOperator position anchor forward).slots g scope ctx).Clean)
    {slot : Slot} :
    .ok slot ∈ (element.stepOperator position anchor forward).slots g scope ctx ↔
      element.Admits g slot ∧ ∃ beside, ctx.slot? anchor = some beside ∧
        slot.Beside beside forward := by
  refine ⟨fun mem => ⟨element.stepOperator_sound h mem, element.stepOperator_beside mem⟩, ?_⟩
  rintro ⟨admits, beside, bound, meets⟩
  cases element with
  | node node =>
      unfold stepOperator at clean ⊢
      rw [Operator.slots] at clean ⊢
      cases ends : ctx.anchorEnds? anchor with
      | error e =>
          rw [ends] at clean
          exact absurd (List.mem_singleton_self _) (clean _)
      | ok ends' =>
          obtain ⟨left, right⟩ := ends'
          rw [ends] at clean
          obtain ⟨ids, there⟩ := Operator.anchorEnds?_eq_ok.mp ends
          rw [bound] at there
          cases there
          cases slot with
          | edges ids left right => exact absurd admits not_false
          | node id =>
              refine (Operator.mem_endpointSlots clean).mpr ?_
              cases forward <;> (cases meets; exact ⟨admits, rfl⟩)
  | edge edge =>
      unfold stepOperator at clean ⊢
      by_cases single : edge.length.isSingleHop = true
      · simp only [single, ↓reduceIte] at clean ⊢
        rw [Operator.slots] at clean ⊢
        cases near : ctx.anchorNode? anchor with
        | error e =>
            rw [near] at clean
            exact absurd (List.mem_singleton_self _) (clean _)
        | ok id =>
            rw [near] at clean
            rw [Operator.anchorNode?_eq_ok.mp near] at bound
            cases bound
            exact (Operator.mem_stepSlots h single clean).mpr ⟨admits, meets⟩
      · simp only [single, Bool.false_eq_true, ↓reduceIte] at clean ⊢
        rw [Operator.slots] at clean ⊢
        cases near : ctx.anchorNode? anchor with
        | error e =>
            rw [near] at clean
            exact absurd (List.mem_singleton_self _) (clean _)
        | ok id =>
            rw [near] at clean
            rw [Operator.anchorNode?_eq_ok.mp near] at bound
            cases bound
            exact (Operator.mem_pathSlots h clean).mpr ⟨admits, meets⟩

theorem nodup_stepOperator (h : g.Sound) (element : Element) {anchor : Nat} {forward : Bool}
    (clean : ((element.stepOperator position anchor forward).slots g scope ctx).Clean) :
    ((element.stepOperator position anchor forward).slots g scope ctx).Nodup := by
  cases element with
  | node node =>
      unfold stepOperator
      rw [Operator.slots]
      split
      · exact List.nodup_singleton _
      · exact Operator.nodup_endpointSlots _ _
  | edge edge =>
      unfold stepOperator at clean ⊢
      by_cases single : edge.length.isSingleHop = true
      · simp only [single, ↓reduceIte]
        rw [Operator.slots]
        split
        · exact List.nodup_singleton _
        · exact Operator.nodup_stepSlots h _ _ _
      · simp only [single, Bool.false_eq_true, ↓reduceIte] at clean ⊢
        rw [Operator.slots] at clean ⊢
        split at clean
        · exact List.nodup_singleton _
        · exact Operator.nodup_pathSlots h clean

end Element

end PropertyGraph
