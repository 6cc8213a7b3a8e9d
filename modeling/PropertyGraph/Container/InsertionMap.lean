import Std.Data.ExtTreeMap

/-!
Maps that remember the order in which their keys came: a key keeps its place when its value is
replaced, and loses it when it is erased.
-/

namespace PropertyGraph

structure InsertionMap (κ β : Type) where
  entries : List (κ × β)
  distinct : (entries.map Prod.fst).Nodup
  deriving DecidableEq

namespace InsertionMap

variable {κ β : Type}

def empty : InsertionMap κ β := ⟨[], .nil⟩

instance : EmptyCollection (InsertionMap κ β) := ⟨empty⟩

def keys (m : InsertionMap κ β) : List κ := m.entries.map Prod.fst

def values (m : InsertionMap κ β) : List β := m.entries.map Prod.snd

def size (m : InsertionMap κ β) : Nat := m.entries.length

def dropLast (m : InsertionMap κ β) : InsertionMap κ β where
  entries := m.entries.dropLast
  distinct := by
    rw [List.map_dropLast]
    exact m.distinct.sublist (List.dropLast_sublist _)

def take (m : InsertionMap κ β) (count : Nat) : InsertionMap κ β where
  entries := m.entries.take count
  distinct := by
    rw [List.map_take]
    exact m.distinct.sublist (List.take_sublist _ _)

variable [DecidableEq κ]

def get? (m : InsertionMap κ β) (k : κ) : Option β := m.entries.lookup k

def contains (m : InsertionMap κ β) (k : κ) : Bool := (m.get? k).isSome

/-- Replaces the value of a key that is present, in its place, and appends one that is not. -/
def place (k : κ) (v : β) : List (κ × β) → List (κ × β)
  | [] => [(k, v)]
  | entry :: rest => if entry.1 = k then (k, v) :: rest else entry :: place k v rest

theorem mem_keys_place {k l : κ} {v : β} {entries : List (κ × β)} :
    l ∈ (place k v entries).map Prod.fst ↔ l = k ∨ l ∈ entries.map Prod.fst := by
  induction entries with
  | nil => simp [place]
  | cons entry rest ih =>
      by_cases h : entry.1 = k
      · simp [place, h]
      · simp [place, h, ih, or_left_comm]

theorem nodup_keys_place (k : κ) (v : β) {entries : List (κ × β)}
    (h : (entries.map Prod.fst).Nodup) : ((place k v entries).map Prod.fst).Nodup := by
  induction entries with
  | nil => simp [place]
  | cons entry rest ih =>
      obtain ⟨absent, nodup⟩ := List.nodup_cons.mp h
      by_cases hk : entry.1 = k
      · rw [hk] at absent
        simpa [place, hk] using And.intro absent nodup
      · rw [place, if_neg hk, List.map_cons, List.nodup_cons, mem_keys_place, not_or]
        exact ⟨⟨hk, absent⟩, ih nodup⟩

def insert (m : InsertionMap κ β) (k : κ) (v : β) : InsertionMap κ β where
  entries := place k v m.entries
  distinct := nodup_keys_place k v m.distinct

def erase (m : InsertionMap κ β) (k : κ) : InsertionMap κ β where
  entries := m.entries.filter (·.1 ≠ k)
  distinct := m.distinct.sublist (List.filter_sublist.map _)

def ofList (entries : List (κ × β)) : InsertionMap κ β :=
  entries.foldl (fun m entry => m.insert entry.1 entry.2) ∅

/-- The first map's entries, followed by the new keys of the second; where both have a key, the
second gives the value. -/
def union (m n : InsertionMap κ β) : InsertionMap κ β :=
  n.entries.foldl (fun m entry => m.insert entry.1 entry.2) m

end InsertionMap

end PropertyGraph
