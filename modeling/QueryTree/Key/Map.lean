import QueryTree.Key

/-! Maps from keys that remember the order in which keys came in. A key that is
put again takes the new value and keeps its place. -/

namespace QueryTree

structure KeyMap (α : Type) where
  entries : List (Key × α) := []
  nodup : (entries.map Prod.fst).Nodup := by simp

namespace KeyMap

variable {α : Type}

def empty : KeyMap α := {}

def keys (map : KeyMap α) : List Key := map.entries.map Prod.fst

def get? (map : KeyMap α) (key : Key) : Option α := map.entries.lookup key

def size (map : KeyMap α) : Nat := map.entries.length

def isEmpty (map : KeyMap α) : Bool := map.entries.isEmpty

/-- Overwrites the entry of a key, or adds one at the end. -/
def putEntry (key : Key) (value : α) : List (Key × α) → List (Key × α)
  | [] => [(key, value)]
  | entry :: entries =>
    if entry.1 = key then (key, value) :: entries else entry :: putEntry key value entries

theorem keys_putEntry (key : Key) (value : α) (entries : List (Key × α)) :
    (putEntry key value entries).map Prod.fst =
      if key ∈ entries.map Prod.fst then entries.map Prod.fst
      else entries.map Prod.fst ++ [key] := by
  induction entries with
  | nil => simp [putEntry]
  | cons entry entries ih =>
    by_cases h : entry.1 = key
    · simp [putEntry, h]
    · have h' : key ≠ entry.1 := fun e => h e.symm
      simp only [putEntry, h, if_false, List.map_cons, ih, List.mem_cons, h', false_or]
      split <;> rfl

theorem nodup_putEntry (key : Key) (value : α) {entries : List (Key × α)}
    (h : (entries.map Prod.fst).Nodup) : ((putEntry key value entries).map Prod.fst).Nodup := by
  rw [keys_putEntry]
  split
  · exact h
  · rename_i new
    refine List.nodup_append.2 ⟨h, by simp, fun a ha b hb => ?_⟩
    rw [List.mem_singleton.1 hb]
    intro e
    exact new (e ▸ ha)

def put (map : KeyMap α) (key : Key) (value : α) : KeyMap α where
  entries := putEntry key value map.entries
  nodup := nodup_putEntry key value map.nodup

/-- Puts entries in order. -/
def ofList (entries : List (Key × α)) : KeyMap α :=
  entries.foldl (fun map entry => map.put entry.1 entry.2) empty

theorem keys_put (map : KeyMap α) (key : Key) (value : α) :
    (map.put key value).keys = if key ∈ map.keys then map.keys else map.keys ++ [key] :=
  keys_putEntry key value map.entries

theorem get?_put (map : KeyMap α) (key other : Key) (value : α) :
    (map.put key value).get? other = if other = key then some value else map.get? other := by
  have miss {a b : Key} (h : a ≠ b) : (a == b) = false := by simpa using h
  simp only [put, get?]
  induction map.entries with
  | nil => by_cases h : other = key <;> simp [putEntry, List.lookup_cons, h, miss]
  | cons entry entries ih =>
    obtain ⟨first, kept⟩ := entry
    by_cases hf : first = key
    · subst hf
      by_cases h : other = first <;> simp [putEntry, List.lookup_cons, h, miss]
    · by_cases h : other = first
      · subst h
        simp [putEntry, hf]
      · simp [putEntry, List.lookup_cons, hf, miss h, ih]

end KeyMap

end QueryTree
