import PropertyGraph.Proofs.Index.Shape

/-!
What an index accepts, against an index built anew from the pairs that it holds. The new one accepts
whatever the old one does; it accepts no more unless the old one still knows, of lists that it has
lost, what their items were.
-/

namespace PropertyGraph

inductive IndexChange (α : Type) where
  | insert (value : PropertyValue) (a : α)
  | remove (value : PropertyValue) (a : α)

inductive Agree {ε α : Type} (related : α → α → Prop) : Except ε α → Except ε α → Prop
  | ok {a b : α} (same : related a b) : Agree related (.ok a) (.ok b)
  | error (e : ε) : Agree related (.error e) (.error e)

theorem Agree.map {ε α β : Type} {related : α → α → Prop} {mapped : β → β → Prop}
    {x y : Except ε α} {f : α → β} (h : Agree related x y)
    (keeps : ∀ {a b : α}, related a b → mapped (f a) (f b)) : Agree mapped (x.map f) (y.map f) := by
  cases h with
  | ok same => exact .ok (keeps same)
  | error e => exact .error e

namespace PropertyIndex

variable {α : Type} [Ord α] [Std.TransOrd α]

def Holds (index : PropertyIndex α) (value : PropertyValue) (a : α) : Prop :=
  a ∈ index.entries.itemsAt value

def Lists (index : PropertyIndex α) (pairs : List (PropertyValue × α)) : Prop :=
  ∀ value a, (value, a) ∈ pairs ↔ index.Holds value a

/-- The index has a shape just while it holds something, and then one above the shapes of all that it
holds. -/
structure Settled (index : PropertyIndex α) : Prop where
  sound : index.Sound index.Holds
  shape : index.shape = none ↔ ∀ value a, ¬index.Holds value a

section Holding

variable {index fresh : PropertyIndex α} {value : PropertyValue} {a : α}

theorem not_holds_empty : ¬(∅ : PropertyIndex α).Holds value a := fun held => sound_empty.mem.mp held

theorem Sound.holds {holds : PropertyValue → α → Prop} (h : index.Sound holds) :
    index.Sound index.Holds := h.congr fun _ _ => h.mem.symm

theorem Sound.isEmpty_iff {holds : PropertyValue → α → Prop} (h : index.Sound holds) :
    index.entries.isEmpty = true ↔ ∀ value a, ¬holds value a := by
  rw [SetMap.isEmpty_iff_itemsAt h.filled]
  refine forall_congr' fun value => ?_
  simp only [List.eq_nil_iff_forall_not_mem, h.mem]

theorem settled_empty : (∅ : PropertyIndex α).Settled where
  sound := sound_empty.holds
  shape := iff_of_true rfl fun _ _ => not_holds_empty

theorem Settled.below (h : index.Settled) (held : index.Holds value a) : ∃ top shape,
    index.shape = some top ∧ Shape.of? value = .ok shape ∧ shape.Below top := by
  obtain ⟨top, shape, at_top, shaped, merged⟩ := h.sound.shaped held
  exact ⟨top, shape, at_top, shaped, Shape.merge?_eq_self_iff.mp merged⟩

theorem Settled.shape_of_holds (h : index.Settled) (fresh_settled : fresh.Settled)
    (holds : ∀ value a, fresh.Holds value a ↔ index.Holds value a) :
    fresh.shape = none ↔ index.shape = none := by
  rw [fresh_settled.shape, h.shape]
  simp only [holds]

end Holding

section Checking

variable {index fresh : PropertyIndex α} {value : PropertyValue}

theorem check?_eq_ok_iff : index.check? value = .ok () ↔ ∃ shape, Shape.of? value = .ok shape ∧
    ∀ seen, index.shape = some seen → ∃ merged, seen.merge? shape = .ok merged := by
  rw [check?, shapeWith?]
  cases Shape.of? value with
  | error e => simp [Except.map]
  | ok shape =>
      cases index.shape with
      | none => simp [Except.map]
      | some seen => cases joined : seen.merge? shape <;> simp [Except.map, joined]

theorem Settled.check?_of_holds (h : index.Settled) {a : α} (held : index.Holds value a) :
    index.check? value = .ok () := by
  obtain ⟨top, shape, at_top, shaped, below⟩ := h.below held
  refine check?_eq_ok_iff.mpr ⟨shape, shaped, fun seen at_seen => ⟨top, ?_⟩⟩
  rw [at_top] at at_seen
  cases at_seen
  exact Shape.merge?_eq_self_iff.mpr below

theorem check?_of_shape (same : fresh.shape = index.shape) (value : PropertyValue) :
    fresh.check? value = index.check? value := by
  rw [check?, check?, shapeWith?, shapeWith?, same]

theorem get?_isOk_iff_check? :
    (∃ holders, index.get? value = .ok holders) ↔ index.check? value = .ok () := by
  rw [get?]
  cases index.check? value <;> simp [Except.map]

end Checking

variable [Std.LawfulEqOrd α]

def apply (index : PropertyIndex α) : IndexChange α → PropertyIndex α
  | .insert value a =>
      match index.insert? value a with
      | .ok after => after
      | .error _ => index
  | .remove value a => index.erase value a

inductive Reachable : PropertyIndex α → Prop
  | empty : Reachable ∅
  | step {index : PropertyIndex α} (change : IndexChange α) :
      Reachable index → Reachable (index.apply change)

def insertPairs? (index : PropertyIndex α) :
    List (PropertyValue × α) → Except Incomparable (PropertyIndex α)
  | [] => .ok index
  | (value, a) :: rest =>
      match index.insert? value a with
      | .ok after => after.insertPairs? rest
      | .error e => .error e

variable {index fresh : PropertyIndex α} {value : PropertyValue} {a : α}

section Settling

theorem exists_insert?_of_shapeWith? {merged : Shape}
    (merges : index.shapeWith? value = .ok merged) (a : α) :
    ∃ after, index.insert? value a = .ok after ∧ after.shape = some merged := by
  rw [PropertyIndex.insert?, merges]
  exact ⟨_, rfl, rfl⟩

theorem Settled.insert? (h : index.Settled) {after : PropertyIndex α}
    (ok : index.insert? value a = .ok after) : after.Settled ∧
      ∀ other b, after.Holds other b ↔ (other = value ∧ b = a) ∨ index.Holds other b := by
  have sound := h.sound.insert? ok
  obtain ⟨merged, -, rfl⟩ := exists_shapeWith?_of_insert? ok
  refine ⟨⟨sound.holds, ?_⟩, fun other b => sound.mem⟩
  refine iff_of_false (by simp) fun none_held => ?_
  exact none_held value a (sound.mem.mpr (.inl ⟨rfl, rfl⟩))

theorem Settled.erase (h : index.Settled) (value : PropertyValue) (a : α) :
    (index.erase value a).Settled ∧
      ∀ other b, (index.erase value a).Holds other b ↔
        index.Holds other b ∧ ¬(other = value ∧ b = a) := by
  have sound := h.sound.erase value a
  refine ⟨⟨sound.holds, ?_⟩, fun other b => sound.mem⟩
  have emptied := sound.holds.isEmpty_iff
  rw [← emptied]
  simp only [PropertyIndex.erase]
  split
  · rename_i empty
    exact iff_of_true rfl empty
  · rename_i held
    refine iff_of_false (fun no_shape => held (emptied.mpr fun other b there => ?_)) held
    exact h.shape.mp no_shape other b (sound.mem.mp there).1

theorem Settled.apply (h : index.Settled) (change : IndexChange α) :
    (index.apply change).Settled := by
  cases change with
  | insert value a =>
      rw [PropertyIndex.apply]
      split
      · rename_i after ok
        exact (h.insert? ok).1
      · exact h
  | remove value a => exact (h.erase value a).1

theorem Reachable.settled (reachable : index.Reachable) : index.Settled := by
  induction reachable with
  | empty => exact settled_empty
  | step change _ ih => exact ih.apply change

theorem Reachable.foldl (reachable : index.Reachable) (changes : List (IndexChange α)) :
    (changes.foldl PropertyIndex.apply index).Reachable := by
  induction changes generalizing index with
  | nil => exact reachable
  | cons change rest ih => exact ih (reachable.step change)

end Settling

section Renewing

theorem Settled.insertPairs? (h : index.Settled) {pairs : List (PropertyValue × α)}
    {after : PropertyIndex α} (ok : index.insertPairs? pairs = .ok after) : after.Settled ∧
      ∀ value a, after.Holds value a ↔ (value, a) ∈ pairs ∨ index.Holds value a := by
  induction pairs generalizing index with
  | nil =>
      cases ok
      exact ⟨h, fun value a => by simp⟩
  | cons pair rest ih =>
      obtain ⟨value, a⟩ := pair
      rw [PropertyIndex.insertPairs?] at ok
      split at ok
      · rename_i mid inserted
        obtain ⟨settled, mid_holds⟩ := h.insert? inserted
        obtain ⟨after_settled, holds⟩ := ih settled ok
        refine ⟨after_settled, fun other b => ?_⟩
        rw [holds, mid_holds, List.mem_cons, Prod.mk.injEq, ← or_assoc, or_comm (a := _ ∈ rest)]
      · cases ok

theorem exists_insertPairs? {top : Shape} (start : ∀ shape, index.shape = some shape → shape.Below top)
    (pairs : List (PropertyValue × α))
    (each : ∀ pair ∈ pairs, ∃ shape, Shape.of? pair.1 = .ok shape ∧ shape.Below top) :
    ∃ after, index.insertPairs? pairs = .ok after ∧
      ∀ shape, after.shape = some shape → shape.Below top := by
  induction pairs generalizing index with
  | nil => exact ⟨index, rfl, start⟩
  | cons pair rest ih =>
      obtain ⟨value, a⟩ := pair
      obtain ⟨⟨shape, shaped, below⟩, each⟩ := List.forall_mem_cons.mp each
      obtain ⟨merged, with_shape, merged_below⟩ :
          ∃ merged, index.shapeWith? value = .ok merged ∧ merged.Below top := by
        rw [shapeWith?, shaped]
        cases seen : index.shape with
        | none => exact ⟨shape, rfl, below⟩
        | some old => exact Shape.exists_merge? (start old seen) below
      obtain ⟨after, inserted, after_shape⟩ := exists_insert?_of_shapeWith? with_shape a
      rw [PropertyIndex.insertPairs?, inserted]
      refine ih (fun shape at_shape => ?_) each
      rw [after_shape] at at_shape
      cases at_shape
      exact merged_below

theorem Settled.exists_renewed (h : index.Settled) {pairs : List (PropertyValue × α)}
    (lists : index.Lists pairs) : ∃ fresh, (∅ : PropertyIndex α).insertPairs? pairs = .ok fresh ∧
      fresh.Settled ∧ (∀ value a, fresh.Holds value a ↔ index.Holds value a) ∧
      ∀ shape, fresh.shape = some shape → ∃ top, index.shape = some top ∧ shape.Below top := by
  have built : ∃ fresh, (∅ : PropertyIndex α).insertPairs? pairs = .ok fresh ∧
      ∀ shape, fresh.shape = some shape → ∃ top, index.shape = some top ∧ shape.Below top := by
    cases seen : index.shape with
    | none =>
        have none_listed : pairs = [] := by
          refine List.eq_nil_iff_forall_not_mem.mpr fun pair mem => ?_
          exact h.shape.mp seen pair.1 pair.2 ((lists pair.1 pair.2).mp mem)
        rw [none_listed]
        exact ⟨∅, rfl, fun shape at_shape => by cases at_shape⟩
    | some top =>
        have start : ∀ shape, (∅ : PropertyIndex α).shape = some shape → shape.Below top :=
          fun shape at_shape => by cases at_shape
        obtain ⟨fresh, built, below⟩ := exists_insertPairs? start pairs fun pair mem => by
          obtain ⟨top', shape, at_top, shaped, below⟩ := h.below ((lists pair.1 pair.2).mp mem)
          rw [seen] at at_top
          cases at_top
          exact ⟨shape, shaped, below⟩
        exact ⟨fresh, built, fun shape at_shape => ⟨top, rfl, below shape at_shape⟩⟩
  obtain ⟨fresh, built, below⟩ := built
  obtain ⟨settled, holds⟩ := settled_empty.insertPairs? built
  refine ⟨fresh, built, settled, fun value a => ?_, below⟩
  rw [holds, or_iff_left not_holds_empty, lists]

end Renewing

section Likeness

/-- Settled indexes that hold the same pairs and have one shape. They may list the holders of a value
in another order. -/
structure Alike (index other : PropertyIndex α) : Prop where
  left : index.Settled
  right : other.Settled
  holds : ∀ value a, index.Holds value a ↔ other.Holds value a
  shape : index.shape = other.shape

variable {other : PropertyIndex α}

omit [Std.LawfulEqOrd α] in
theorem alike_empty : (∅ : PropertyIndex α).Alike ∅ :=
  ⟨settled_empty, settled_empty, fun _ _ => .rfl, rfl⟩

theorem Alike.insert? (h : index.Alike other) (value : PropertyValue) (a : α) :
    Agree Alike (index.insert? value a) (other.insert? value a) := by
  have shapes : other.shapeWith? value = index.shapeWith? value := by
    rw [shapeWith?, shapeWith?, h.shape]
  cases merged : index.shapeWith? value with
  | error e =>
      rw [PropertyIndex.insert?, PropertyIndex.insert?, shapes, merged]
      exact .error e
  | ok shape =>
      obtain ⟨after, inserted, after_shape⟩ := exists_insert?_of_shapeWith? merged a
      obtain ⟨other_after, other_inserted, other_shape⟩ :=
        exists_insert?_of_shapeWith? (shapes.trans merged) a
      obtain ⟨settled, held⟩ := h.left.insert? inserted
      obtain ⟨other_settled, other_held⟩ := h.right.insert? other_inserted
      rw [inserted, other_inserted]
      refine .ok ⟨settled, other_settled, fun value b => ?_, by rw [after_shape, other_shape]⟩
      rw [held, other_held, h.holds]

theorem Alike.erase (h : index.Alike other) (value : PropertyValue) (a : α) :
    (index.erase value a).Alike (other.erase value a) := by
  obtain ⟨settled, held⟩ := h.left.erase value a
  obtain ⟨other_settled, other_held⟩ := h.right.erase value a
  have same : ∀ value' b, (index.erase value a).Holds value' b ↔ (other.erase value a).Holds value' b :=
    fun value' b => by rw [held, other_held, h.holds]
  refine ⟨settled, other_settled, same, ?_⟩
  have emptied := settled.shape_of_holds other_settled fun value' b => (same value' b).symm
  simp only [PropertyIndex.erase] at emptied ⊢
  split <;> split <;> simp_all [h.shape]

theorem Alike.apply (h : index.Alike other) (change : IndexChange α) :
    (index.apply change).Alike (other.apply change) := by
  cases change with
  | insert value a =>
      have agree := h.insert? value a
      rw [PropertyIndex.apply, PropertyIndex.apply]
      generalize index.insert? value a = after, other.insert? value a = other_after at agree
      cases agree with
      | ok alike => exact alike
      | error e => exact h
  | remove value a => exact h.erase value a

theorem Alike.foldl_apply (h : index.Alike other) (changes : List (IndexChange α)) :
    (changes.foldl PropertyIndex.apply index).Alike (changes.foldl PropertyIndex.apply other) := by
  induction changes generalizing index other with
  | nil => exact h
  | cons change rest ih => exact ih (h.apply change)

theorem alike_of_insertPairs? {pairs others : List (PropertyValue × α)}
    (members : ∀ pair, pair ∈ pairs ↔ pair ∈ others)
    (built : (∅ : PropertyIndex α).insertPairs? pairs = .ok fresh)
    (rebuilt : (∅ : PropertyIndex α).insertPairs? others = .ok other) : fresh.Alike other := by
  obtain ⟨left, held⟩ := settled_empty.insertPairs? built
  obtain ⟨right, other_held⟩ := settled_empty.insertPairs? rebuilt
  have listed : fresh.Lists pairs := fun value a => by rw [held, or_iff_left not_holds_empty]
  have relisted : other.Lists others := fun value a => by
    rw [other_held, or_iff_left not_holds_empty]
  have same : ∀ value a, fresh.Holds value a ↔ other.Holds value a := fun value a => by
    rw [← listed, ← relisted, members]
  -- Each of the two is the other one built anew, so neither shape says more than the other.
  obtain ⟨again, again_eq, -, -, lower⟩ :=
    right.exists_renewed fun value a => (listed value a).trans (same value a)
  rw [built] at again_eq
  cases again_eq
  obtain ⟨again, again_eq, -, -, upper⟩ :=
    left.exists_renewed fun value a => (relisted value a).trans (same value a).symm
  rw [rebuilt] at again_eq
  cases again_eq
  refine ⟨left, right, same, ?_⟩
  cases seen : fresh.shape with
  | none => exact ((right.shape_of_holds left same).mp seen).symm
  | some shape =>
      obtain ⟨top, at_top, below⟩ := lower shape seen
      obtain ⟨back, at_back, above⟩ := upper top at_top
      rw [seen] at at_back
      cases at_back
      rw [at_top, below.antisymm above]

end Likeness

section Accepting

structure Renews (fresh index : PropertyIndex α) : Prop where
  holds : ∀ value a, fresh.Holds value a ↔ index.Holds value a
  accepts : ∀ value, index.check? value = .ok () → fresh.check? value = .ok ()
  alike : (∀ value, fresh.check? value = .ok () ↔ index.check? value = .ok ()) ↔
    fresh.shape = index.shape
  bare : (∀ value a, ¬index.Holds value a) → fresh.shape = index.shape
  complete : ∀ value a shape, index.Holds value a → Shape.of? value = .ok shape →
    shape.isComplete = true → fresh.shape = index.shape
  later : fresh.shape = index.shape → ∀ (changes : List (IndexChange α)) (value : PropertyValue),
    (changes.foldl apply fresh).check? value = (changes.foldl apply index).check? value

theorem Settled.renews (h : index.Settled) (fresh_settled : fresh.Settled)
    (holds : ∀ value a, fresh.Holds value a ↔ index.Holds value a)
    (below : ∀ shape, fresh.shape = some shape → ∃ top, index.shape = some top ∧ shape.Below top) :
    fresh.Renews index where
  holds := holds
  accepts := fun value accepted => by
    obtain ⟨shape, shaped, mergeable⟩ := check?_eq_ok_iff.mp accepted
    refine check?_eq_ok_iff.mpr ⟨shape, shaped, fun seen at_seen => ?_⟩
    obtain ⟨top, at_top, lower⟩ := below seen at_seen
    obtain ⟨merged, joined⟩ := mergeable top at_top
    obtain ⟨top_below, shape_below⟩ := Shape.below_of_merge? joined
    obtain ⟨common, found, -⟩ := Shape.exists_merge? (lower.trans top_below) shape_below
    exact ⟨common, found⟩
  alike := by
    refine ⟨fun same => ?_, fun same value => by rw [check?_of_shape same]⟩
    cases seen : fresh.shape with
    | none => exact ((h.shape_of_holds fresh_settled holds).mp seen).symm
    | some shape =>
        obtain ⟨top, at_top, lower⟩ := below shape seen
        rw [at_top]
        refine congrArg some (Classical.byContradiction fun apart => ?_)
        -- A shape that tells the two apart has a value, which only the fresh index accepts.
        obtain ⟨other, ⟨merged, joined⟩, refused⟩ := lower.exists_told apart
        obtain ⟨value, shaped⟩ := other.exists_value
        have accepted : fresh.check? value = .ok () :=
          check?_eq_ok_iff.mpr ⟨other, shaped, fun seen' at_seen => by
            rw [seen] at at_seen
            cases at_seen
            exact ⟨merged, joined⟩⟩
        obtain ⟨shape', shaped', mergeable⟩ := check?_eq_ok_iff.mp ((same value).mp accepted)
        rw [shaped] at shaped'
        cases shaped'
        obtain ⟨merged', joined'⟩ := mergeable top at_top
        exact refused merged' joined'
  bare := fun none_held => by
    rw [h.shape.mpr none_held, h.shape_of_holds fresh_settled holds, h.shape]
    exact none_held
  complete := fun value a shape held shaped complete => by
    obtain ⟨top, shape', at_top, shaped', lower⟩ := fresh_settled.below ((holds value a).mpr held)
    rw [shaped] at shaped'
    cases shaped'
    obtain ⟨above, at_above, upper⟩ := below top at_top
    rw [at_top, at_above, ← lower.eq_of_isComplete complete,
      ← (lower.trans upper).eq_of_isComplete complete]
  later := fun same changes value =>
    check?_of_shape (Alike.foldl_apply ⟨fresh_settled, h, holds, same⟩ changes).shape value

end Accepting

end PropertyIndex

end PropertyGraph
