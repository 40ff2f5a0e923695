/-! JSON values. An object keeps its members in the order in which they were
written, repeated names included: whoever reads a record decides what a
repeated name means. -/

namespace QueryTree

inductive Json where
  | null
  | bool (value : Bool)
  /-- A number keeps its literal; no record of this library has a numeric member. -/
  | number (literal : String)
  | string (text : String)
  /-- A string that escapes one half of a surrogate pair without the other, or an
  object with such a member name: it is well formed but stands for no text. -/
  | garbled
  | array (items : List Json)
  | object (members : List (String × Json))
deriving Inhabited

namespace Json

mutual

/-- The number of arrays and objects around the most deeply nested value,
the value itself included when it is one. -/
def depth : Json → Nat
  | array items => depthOfItems items + 1
  | object members => depthOfMembers members + 1
  | _ => 0

def depthOfItems : List Json → Nat
  | [] => 0
  | item :: items => max (depth item) (depthOfItems items)

def depthOfMembers : List (String × Json) → Nat
  | [] => 0
  | (_, value) :: members => max (depth value) (depthOfMembers members)

end

theorem depth_le_depthOfItems {items : List Json} {item : Json} (h : item ∈ items) :
    item.depth ≤ depthOfItems items := by
  induction items with
  | nil => cases h
  | cons head tail ih =>
    rw [depthOfItems]
    rcases List.mem_cons.1 h with rfl | h
    · exact Nat.le_max_left _ _
    · exact Nat.le_trans (ih h) (Nat.le_max_right _ _)

theorem depth_le_depthOfMembers {members : List (String × Json)} {name : String} {value : Json}
    (h : (name, value) ∈ members) : value.depth ≤ depthOfMembers members := by
  induction members with
  | nil => cases h
  | cons head tail ih =>
    obtain ⟨_, first⟩ := head
    rw [depthOfMembers]
    rcases List.mem_cons.1 h with h | h
    · cases h; exact Nat.le_max_left _ _
    · exact Nat.le_trans (ih h) (Nat.le_max_right _ _)

end Json

end QueryTree
