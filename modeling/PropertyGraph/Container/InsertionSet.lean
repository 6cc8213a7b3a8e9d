import Std.Data.ExtTreeMap

/-!
Sets that remember the order of insertion. Items stand in slots, and a map gives each item its
slot; a removed item leaves a cleared slot behind, and cleared slots are swept out when they are
many and outnumber the items.
-/

namespace PropertyGraph

structure InsertionSet (α : Type) [Ord α] [Std.TransOrd α] where
  slots : Array (Option α)
  positions : Std.ExtTreeMap α Nat
  sound : ∀ (a : α) (i : Nat), positions[a]? = some i ↔ slots[i]? = some (some a)

namespace InsertionSet

variable {α : Type} [Ord α] [Std.TransOrd α]

/-- Up to this many cleared slots are left alone. -/
def slack : Nat := 32

def toList (s : InsertionSet α) : List α := s.slots.toList.filterMap id

def contains (s : InsertionSet α) (a : α) : Bool := s.positions.contains a

def size (s : InsertionSet α) : Nat := s.positions.size

def isEmpty (s : InsertionSet α) : Bool := s.positions.isEmpty

def clearedSlots (s : InsertionSet α) : Nat := s.slots.size - s.positions.size

def sameItems (s t : InsertionSet α) : Bool := s.size == t.size && s.toList.all t.contains

def empty : InsertionSet α where
  slots := #[]
  positions := ∅
  sound := by simp

instance : EmptyCollection (InsertionSet α) := ⟨empty⟩

variable [Std.LawfulEqOrd α]

theorem sound_push (s : InsertionSet α) {a : α} (h : s.positions[a]? = none) (b : α) (i : Nat) :
    (s.positions.insert a s.slots.size)[b]? = some i ↔
      (s.slots.push (some a))[i]? = some (some b) := by
  rw [Std.ExtTreeMap.getElem?_insert, Array.getElem?_push]
  by_cases hab : a = b
  · subst hab
    by_cases hi : i = s.slots.size
    · simp [hi]
    · have absent : s.slots[i]? ≠ some (some a) := fun there => by
        simp [(s.sound a i).mpr there] at h
      simp [hi, absent, Ne.symm hi]
  · by_cases hi : i = s.slots.size
    · have absent : s.positions[b]? ≠ some s.slots.size := fun there => by
        simpa using (s.sound b s.slots.size).mp there
      simp [hi, hab, absent]
    · simp [hi, hab, s.sound]

theorem sound_clear (s : InsertionSet α) {a : α} {i : Nat} (h : s.positions[a]? = some i)
    (b : α) (j : Nat) :
    (s.positions.erase a)[b]? = some j ↔
      (s.slots.setIfInBounds i none)[j]? = some (some b) := by
  have there := (s.sound a i).mp h
  rw [Std.ExtTreeMap.getElem?_erase, Array.getElem?_setIfInBounds]
  by_cases hij : i = j
  · subst hij
    by_cases hab : a = b
    · simp [hab]
    · have absent : s.positions[b]? ≠ some i := fun other => hab (by
        simpa [there] using (s.sound b i).mp other)
      simp [hab, absent]
  · by_cases hab : a = b
    · subst hab
      have absent : s.slots[j]? ≠ some (some a) := fun other => hij (by
        simpa [h] using (s.sound a j).mpr other)
      simp [hij, absent]
    · simp [hij, hab, s.sound]

def insert (s : InsertionSet α) (a : α) : InsertionSet α :=
  match h : s.positions[a]? with
  | some _ => s
  | none =>
      { slots := s.slots.push (some a)
        positions := s.positions.insert a s.slots.size
        sound := s.sound_push h }

def ofList (items : List α) : InsertionSet α := items.foldl insert ∅

def clear (s : InsertionSet α) (a : α) : InsertionSet α :=
  match h : s.positions[a]? with
  | none => s
  | some i =>
      { slots := s.slots.setIfInBounds i none
        positions := s.positions.erase a
        sound := s.sound_clear h }

def sweep (s : InsertionSet α) : InsertionSet α :=
  if slack < s.clearedSlots ∧ s.size < s.clearedSlots then ofList s.toList else s

def erase (s : InsertionSet α) (a : α) : InsertionSet α :=
  if s.contains a then (s.clear a).sweep else s

def add (s : InsertionSet α) (a : α) : InsertionSet α × Bool := (s.insert a, !s.contains a)

def remove (s : InsertionSet α) (a : α) : InsertionSet α × Bool := (s.erase a, s.contains a)

end InsertionSet

end PropertyGraph
