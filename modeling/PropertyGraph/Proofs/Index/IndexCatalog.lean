import PropertyGraph.Index.IndexCatalog
import PropertyGraph.Proofs.Index.PropertyIndex
import Mathlib.Tactic.Common

namespace PropertyGraph

namespace IndexCatalog

variable {α : Type} [Ord α] [Std.TransOrd α]

def Sound (indexes : IndexCatalog α) (holds : String → PropertyValue → α → Prop) : Prop :=
  ∀ (key : String) (index : PropertyIndex α), indexes[key]? = some index → index.Sound (holds key)

variable {indexes : IndexCatalog α} {holds : String → PropertyValue → α → Prop}

theorem sound_empty (holds : String → PropertyValue → α → Prop) :
    (∅ : IndexCatalog α).Sound holds := by
  intro key index h
  simp at h

theorem Sound.congr {other : String → PropertyValue → α → Prop} (h : indexes.Sound holds)
    (same : ∀ key value a, holds key value a ↔ other key value a) : indexes.Sound other :=
  fun key index found => (h key index found).congr (same key)

theorem Sound.erase (h : indexes.Sound holds) (key : String) :
    Sound (Std.ExtTreeMap.erase indexes key) holds := by
  intro other index found
  rw [Std.ExtTreeMap.getElem?_erase] at found
  split at found
  · cases found
  · exact h other index found

theorem Sound.insert {other : String → PropertyValue → α → Prop} (h : indexes.Sound holds)
    {key : String} {index : PropertyIndex α} (sound : index.Sound (other key))
    (same : ∀ k, k ≠ key → ∀ value a, holds k value a ↔ other k value a) :
    Sound (Std.ExtTreeMap.insert indexes key index) other := by
  intro k found there
  rw [Std.ExtTreeMap.getElem?_insert] at there
  by_cases eq : key = k
  · subst eq
    rw [if_pos (by simp)] at there
    cases there
    exact sound
  · rw [if_neg (by simpa using eq)] at there
    exact (h k found there).congr (same k (Ne.symm eq))

theorem insert_insert (indexes : IndexCatalog α) (key : String) (index other : PropertyIndex α) :
    Std.ExtTreeMap.insert (Std.ExtTreeMap.insert indexes key index) key other =
      Std.ExtTreeMap.insert indexes key other := by
  refine Std.ExtTreeMap.ext_getElem? fun k => ?_
  simp only [Std.ExtTreeMap.getElem?_insert]
  split <;> rfl

theorem rel_insert_self {related : PropertyIndex α → PropertyIndex α → Prop}
    (h : ∀ k : String, Option.Rel related indexes[k]? indexes[k]?) {key : String}
    {index other : PropertyIndex α} (found : indexes[key]? = some index) (same : related other index)
    (k : String) : Option.Rel related (Std.ExtTreeMap.insert indexes key other)[k]? indexes[k]? := by
  rw [Std.ExtTreeMap.getElem?_insert]
  split
  · rename_i at_key
    have at_key : key = k := by simpa using at_key
    rw [← at_key, found]
    exact .some same
  · exact h k

variable [Std.LawfulEqOrd α]

theorem Sound.insert? (h : indexes.Sound holds) {key : String} {value : PropertyValue} {a : α}
    {after : IndexCatalog α} (ok : indexes.insert? key value a = .ok after) :
    after.Sound fun k v b => (k = key ∧ v = value ∧ b = a) ∨ holds k v b := by
  unfold IndexCatalog.insert? at ok
  split at ok
  · rename_i absent
    cases ok
    intro k index found
    refine (h k index found).congr fun v b => ?_
    have apart : k ≠ key := fun eq => by
      rw [eq, absent] at found
      cases found
    simp [apart]
  · rename_i index found
    cases inserted : index.insert? value a with
    | error e => simp [inserted, Except.map] at ok
    | ok grown =>
        have after_eq : after = Std.ExtTreeMap.insert indexes key grown := by
          simpa [inserted, Except.map, eq_comm] using ok
        subst after_eq
        refine h.insert (((h key index found).insert? inserted).congr fun v b => ?_)
          fun k apart v b => ?_
        · simp
        · simp [apart]

theorem Sound.remove (h : indexes.Sound holds) (key : String) (value : PropertyValue) (a : α) :
    (indexes.remove key value a).Sound fun k v b =>
      holds k v b ∧ ¬(k = key ∧ v = value ∧ b = a) := by
  unfold IndexCatalog.remove
  split
  · rename_i absent
    intro k index found
    refine (h k index found).congr fun v b => ?_
    have apart : k ≠ key := fun eq => by
      rw [eq, absent] at found
      cases found
    simp [apart]
  · rename_i index found
    refine h.insert (((h key index found).erase value a).congr fun v b => ?_) fun k apart v b => ?_
    · simp
    · simp [apart]

theorem getElem?_insert?_of_ne {key other : String} {value : PropertyValue} {a : α}
    {after : IndexCatalog α} (ok : indexes.insert? key value a = .ok after) (ne : other ≠ key) :
    after[other]? = indexes[other]? := by
  unfold IndexCatalog.insert? at ok
  split at ok
  · cases ok
    rfl
  · rename_i index found
    cases inserted : index.insert? value a with
    | error e => simp [inserted, Except.map] at ok
    | ok grown =>
        have after_eq : after = Std.ExtTreeMap.insert indexes key grown := by
          simpa [inserted, Except.map, eq_comm] using ok
        rw [after_eq, Std.ExtTreeMap.getElem?_insert, if_neg (by simpa using Ne.symm ne)]

theorem getElem?_insert?_self {key : String} {value : PropertyValue} {a : α}
    {after : IndexCatalog α} (ok : indexes.insert? key value a = .ok after) :
    after[key]? = indexes[key]?.bind fun index => (index.insert? value a).toOption := by
  rw [IndexCatalog.insert?] at ok
  cases found : indexes[key]? with
  | none =>
      simp only [found, Except.ok.injEq] at ok
      subst ok
      exact found
  | some index =>
      simp only [found] at ok
      rw [Option.bind_some]
      cases inserted : index.insert? value a with
      | error e => simp [inserted, Except.map] at ok
      | ok grown =>
          simp only [inserted, Except.map, Except.ok.injEq] at ok
          subst ok
          exact Std.ExtTreeMap.getElem?_insert_self

theorem exists_insert?_of_check? {key : String} {value : PropertyValue}
    (h : indexes.check? key value = .ok ()) (a : α) :
    ∃ after, indexes.insert? key value a = .ok after := by
  unfold check? at h
  unfold IndexCatalog.insert?
  split at h
  · exact ⟨indexes, rfl⟩
  · obtain ⟨grown, inserted⟩ := PropertyIndex.insert?_isOk_iff_check?.mpr h
    exact ⟨_, by rw [inserted]; rfl⟩

omit [Std.LawfulEqOrd α] in
theorem checkEach?_eq_ok_iff {pairs : List (String × PropertyValue)} :
    indexes.checkEach? pairs = .ok () ↔ ∀ pair ∈ pairs, indexes.check? pair.1 pair.2 = .ok () := by
  induction pairs with
  | nil => simp [checkEach?]
  | cons pair rest ih =>
      rw [checkEach?, List.forall_mem_cons]
      cases indexes.check? pair.1 pair.2 with
      | ok => simp [ih]
      | error e => simp

theorem exists_insertEach {pairs : List (String × PropertyValue)} (a : α)
    (distinct : (pairs.map Prod.fst).Nodup) (ok : indexes.checkEach? pairs = .ok ()) :
    ∃ after, indexes.insertEach a pairs = (after, .ok ()) := by
  induction pairs generalizing indexes with
  | nil => exact ⟨indexes, rfl⟩
  | cons pair rest ih =>
      obtain ⟨key, value⟩ := pair
      obtain ⟨absent, distinct_rest⟩ := List.nodup_cons.mp distinct
      unfold checkEach? at ok
      split at ok
      · rename_i passed
        obtain ⟨mid, inserted⟩ := exists_insert?_of_check? passed a
        have agrees : mid.checkEach? rest = indexes.checkEach? rest := by
          clear ih ok distinct distinct_rest
          induction rest with
          | nil => rfl
          | cons next rest ih =>
              rw [List.map_cons, List.mem_cons, not_or] at absent
              have same := getElem?_insert?_of_ne inserted (Ne.symm absent.1)
              unfold checkEach?
              rw [check?, same, ← check?, ih absent.2]
        obtain ⟨after, all⟩ := ih distinct_rest (agrees.trans ok)
        exact ⟨after, by rw [insertEach, inserted]; exact all⟩
      · cases ok

theorem getElem?_insertEach_of_notMem {pairs : List (String × PropertyValue)} {a : α}
    {after : IndexCatalog α} (ok : indexes.insertEach a pairs = (after, .ok ())) {key : String}
    (absent : key ∉ pairs.map Prod.fst) : after[key]? = indexes[key]? := by
  induction pairs generalizing indexes with
  | nil =>
      cases ok
      rfl
  | cons pair rest ih =>
      obtain ⟨first, later⟩ := not_or.mp (mt List.mem_cons.mpr absent)
      rw [IndexCatalog.insertEach] at ok
      split at ok
      · rename_i mid inserted
        rw [ih ok later, getElem?_insert?_of_ne inserted first]
      · cases ok

theorem getElem?_insertEach_of_mem {pairs : List (String × PropertyValue)} {a : α}
    {after : IndexCatalog α} (ok : indexes.insertEach a pairs = (after, .ok ()))
    (distinct : (pairs.map Prod.fst).Nodup) {key : String} {value : PropertyValue}
    (mem : (key, value) ∈ pairs) :
    after[key]? = indexes[key]?.bind fun index => (index.insert? value a).toOption := by
  induction pairs generalizing indexes with
  | nil => cases mem
  | cons pair rest ih =>
      obtain ⟨absent, distinct_rest⟩ := List.nodup_cons.mp distinct
      rw [IndexCatalog.insertEach] at ok
      split at ok
      · rename_i mid inserted
        rcases List.mem_cons.mp mem with rfl | later
        · rw [getElem?_insertEach_of_notMem ok absent, getElem?_insert?_self inserted]
        · have ne : key ≠ pair.1 := fun same =>
            absent (same ▸ List.mem_map_of_mem (f := Prod.fst) later)
          rw [ih ok distinct_rest later, getElem?_insert?_of_ne inserted ne]
      · cases ok

theorem insertEach_perm {pairs others : List (String × PropertyValue)} {a : α}
    {after final : IndexCatalog α} (perm : pairs.Perm others) (distinct : (pairs.map Prod.fst).Nodup)
    (ok : indexes.insertEach a pairs = (after, .ok ()))
    (other_ok : indexes.insertEach a others = (final, .ok ())) : after = final := by
  have keys := perm.map Prod.fst
  refine Std.ExtTreeMap.ext_getElem? fun key => ?_
  by_cases listed : key ∈ pairs.map Prod.fst
  · obtain ⟨⟨key, value⟩, mem, rfl⟩ := List.mem_map.mp listed
    rw [getElem?_insertEach_of_mem ok distinct mem,
      getElem?_insertEach_of_mem other_ok (keys.nodup_iff.mp distinct) (perm.mem_iff.mp mem)]
  · rw [getElem?_insertEach_of_notMem ok listed,
      getElem?_insertEach_of_notMem other_ok (mt keys.mem_iff.mpr listed)]

theorem Sound.insertEach (h : indexes.Sound holds) {pairs : List (String × PropertyValue)} {a : α}
    {after : IndexCatalog α} (ok : indexes.insertEach a pairs = (after, .ok ())) :
    after.Sound fun k v b => (b = a ∧ (k, v) ∈ pairs) ∨ holds k v b := by
  induction pairs generalizing indexes holds with
  | nil =>
      cases ok
      exact h.congr (by simp)
  | cons pair rest ih =>
      obtain ⟨key, value⟩ := pair
      unfold IndexCatalog.insertEach at ok
      split at ok
      · rename_i mid inserted
        refine (ih (h.insert? inserted) ok).congr fun k v b => ?_
        simp only [List.mem_cons, Prod.mk.injEq]
        tauto
      · cases ok

theorem Sound.removeEach (h : indexes.Sound holds) (pairs : List (String × PropertyValue)) (a : α) :
    Sound (pairs.foldl (fun indexes pair => indexes.remove pair.1 pair.2 a) indexes)
      fun k v b => holds k v b ∧ ¬(b = a ∧ (k, v) ∈ pairs) := by
  induction pairs generalizing indexes holds with
  | nil => exact h.congr (by simp)
  | cons pair rest ih =>
      obtain ⟨key, value⟩ := pair
      refine (ih (h.remove key value a)).congr fun k v b => ?_
      simp only [List.mem_cons, Prod.mk.injEq]
      tauto

theorem distinct_keys (props : Properties) : (props.toList.map Prod.fst).Nodup := by
  rw [List.Nodup, List.pairwise_map]
  exact Std.ExtTreeMap.distinct_keys_toList.imp fun h eq => h (by simp [eq])

theorem exists_insertAll {props : Properties} (a : α) (ok : indexes.checkAll? props = .ok ()) :
    ∃ after, indexes.insertAll props a = (after, .ok ()) :=
  exists_insertEach a (distinct_keys props) ok

theorem Sound.insertAll (h : indexes.Sound holds) {props : Properties} {a : α}
    {after : IndexCatalog α} (ok : indexes.insertAll props a = (after, .ok ())) :
    after.Sound fun k v b => (b = a ∧ props[k]? = some v) ∨ holds k v b :=
  (h.insertEach ok).congr fun k v b => by rw [Std.ExtTreeMap.mem_toList_iff_getElem?_eq_some]

theorem Sound.removeAll (h : indexes.Sound holds) (props : Properties) (a : α) :
    (indexes.removeAll props a).Sound fun k v b => holds k v b ∧ ¬(b = a ∧ props[k]? = some v) :=
  (h.removeEach props.toList a).congr fun k v b => by
    rw [Std.ExtTreeMap.mem_toList_iff_getElem?_eq_some]

section Replace

variable {key : String} {old : Option PropertyValue} {new : PropertyValue} {a : α}

theorem Sound.cleared (h : indexes.Sound holds) (key : String) (old : Option PropertyValue)
    (a : α) :
    Sound (match old with
      | none => indexes
      | some value => indexes.remove key value a)
      fun k v b => holds k v b ∧ ¬(k = key ∧ old = some v ∧ b = a) := by
  cases old with
  | none => exact h.congr (by simp)
  | some value =>
      refine (h.remove key value a).congr fun k v b => ?_
      simp only [Option.some.injEq, eq_comm (a := value)]

theorem Sound.replace (h : indexes.Sound holds) {after : IndexCatalog α}
    (ok : indexes.replace key old new a = (after, .ok ())) :
    after.Sound fun k v b =>
      (k = key ∧ v = new ∧ b = a) ∨ (holds k v b ∧ ¬(k = key ∧ old = some v ∧ b = a)) := by
  unfold IndexCatalog.replace at ok
  simp only at ok
  split at ok
  · rename_i filed inserted
    cases ok
    exact (h.cleared key old a).insert? inserted
  · split at ok
    · cases ok
    · split at ok <;> cases ok

theorem Sound.replace_of_error (h : indexes.Sound holds) {after : IndexCatalog α} {e : Incomparable}
    (there : ∀ value, old = some value → holds key value a)
    (failed : indexes.replace key old new a = (after, .error e)) :
    (old = none → after = indexes) ∧
      ∀ value, old = some value → ∃ index restored, indexes[key]? = some index ∧
        (index.erase value a).insert? value a = .ok restored ∧
        after = Std.ExtTreeMap.insert indexes key restored := by
  unfold IndexCatalog.replace at failed
  simp only at failed
  split at failed
  · cases failed
  · rename_i refused
    cases old with
    | none =>
        cases failed
        exact ⟨fun _ => rfl, fun _ same => by cases same⟩
    | some value =>
        simp only at failed refused
        cases found : indexes[key]? with
        | none =>
            simp [IndexCatalog.remove, IndexCatalog.insert?, found] at refused
        | some index =>
            obtain ⟨restored, again⟩ := (h key index found).exists_insert?_erase (there value rfl)
            have cleared : indexes.remove key value a =
                Std.ExtTreeMap.insert indexes key (index.erase value a) := by
              rw [IndexCatalog.remove, found]
            have inserted : (indexes.remove key value a).insert? key value a =
                .ok (Std.ExtTreeMap.insert indexes key restored) := by
              rw [cleared, IndexCatalog.insert?, Std.ExtTreeMap.getElem?_insert_self]
              simp only [again, Except.map, insert_insert]
            rw [inserted] at failed
            cases failed
            refine ⟨fun bare => (Option.some_ne_none value bare).elim, fun _ same => ?_⟩
            cases same
            exact ⟨index, restored, rfl, again, rfl⟩

theorem Sound.replace_error (h : indexes.Sound holds) {after : IndexCatalog α} {e : Incomparable}
    (there : ∀ value, old = some value → holds key value a)
    (failed : indexes.replace key old new a = (after, .error e)) : after.Sound holds := by
  obtain ⟨bare, valued⟩ := h.replace_of_error there failed
  cases old with
  | none =>
      rw [bare rfl]
      exact h
  | some value =>
      obtain ⟨index, restored, found, again, rfl⟩ := valued value rfl
      refine h.insert ((((h key index found).erase value a).insert? again).congr fun v b => ?_)
        fun _ _ _ _ => .rfl
      constructor
      · rintro (⟨rfl, rfl⟩ | ⟨kept, -⟩)
        · exact there v rfl
        · exact kept
      · intro kept
        by_cases same : v = value ∧ b = a
        · exact .inl same
        · exact .inr ⟨kept, same⟩

end Replace

section Build

variable {key : String} {holders : List (PropertyValue × α)}

theorem Sound.fill (h : indexes.Sound holds) {after : IndexCatalog α}
    {result : Except Incomparable Unit} (eq : indexes.fill key holders = (after, result)) :
    ∃ other, after.Sound other ∧ (∀ k, k ≠ key → ∀ v b, other k v b ↔ holds k v b) ∧
      (result = .ok () → ∀ v b, other key v b ↔ (v, b) ∈ holders ∨ holds key v b) := by
  induction holders generalizing indexes holds with
  | nil =>
      cases eq
      exact ⟨holds, h, fun _ _ _ _ => Iff.rfl, fun _ v b => by simp⟩
  | cons holder rest ih =>
      obtain ⟨value, a⟩ := holder
      unfold IndexCatalog.fill at eq
      split at eq
      · rename_i mid inserted
        obtain ⟨other, sound, apart, full⟩ := ih (h.insert? inserted) eq
        refine ⟨other, sound, fun k ne v b => ?_, fun ok v b => ?_⟩
        · rw [apart k ne]
          simp [ne]
        · rw [full ok]
          simp only [List.mem_cons, Prod.mk.injEq, true_and]
          tauto
      · cases eq
        exact ⟨holds, h, fun _ _ _ _ => Iff.rfl, fun ok => by cases ok⟩

theorem Sound.build (h : indexes.Sound holds)
    (all : ∀ v b, (v, b) ∈ holders ↔ holds key v b) :
    (indexes.build key holders).1.Sound holds := by
  unfold IndexCatalog.build create
  by_cases there : indexes.has key
  · rw [if_pos there]
    exact h
  · rw [if_neg there]
    have created : Sound (Std.ExtTreeMap.insert indexes key ∅)
        fun k v b => k ≠ key ∧ holds k v b := by
      refine h.insert (PropertyIndex.sound_empty.congr fun v b => ?_) fun k ne v b => ?_
      · simp
      · simp [ne]
    simp only
    split
    · rename_i filled eq
      obtain ⟨other, sound, apart, full⟩ := created.fill eq
      refine sound.congr fun k v b => ?_
      by_cases same : k = key
      · subst same
        rw [full rfl, all]
        simp
      · rw [apart k same]
        simp [same]
    · rename_i filled e eq
      obtain ⟨other, sound, apart, -⟩ := created.fill eq
      intro k index found
      rw [drop, Std.ExtTreeMap.getElem?_erase] at found
      split at found
      · cases found
      · rename_i ne
        have ne : k ≠ key := fun same => ne (by simp [same])
        refine (sound k index found).congr fun v b => ?_
        rw [apart k ne]
        simp [ne]

end Build

end IndexCatalog

end PropertyGraph
