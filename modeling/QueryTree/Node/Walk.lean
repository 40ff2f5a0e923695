import QueryTree.Node

/-! Walks through a tree: all nodes in pre-order, the node that a key path leads
to, and the path to a key. A key path begins with the key of the root and goes
down one child at a time, to the first child with the next key. -/

namespace QueryTree.Node

mutual

/-- The node and everything below it, each node before its children. -/
def preorder : Node → List Node
  | n@⟨_, _, _, none⟩ => [n]
  | n@⟨_, _, _, some kids⟩ => n :: preorderAll kids

def preorderAll : List Node → List Node
  | [] => []
  | n :: ns => preorder n ++ preorderAll ns

end

/-- The node that the keys lead to from below `n`. -/
def descend : Node → List Key → Option Node
  | n, [] => some n
  | n, key :: keys => (n.child key).bind (descend · keys)

/-- The node at a key path, whose first key has to be that of the root. -/
def nodeAt (root : Node) : List Key → Option Node
  | [] => none
  | key :: keys => if key = root.key then root.descend keys else none

mutual

/-- The path to the first node in pre-order that has a key. -/
def pathTo (key : Key) : Node → Option (List Key)
  | ⟨own, _, _, none⟩ => if own = key then some [own] else none
  | ⟨own, _, _, some kids⟩ =>
    if own = key then some [own] else (pathToAmong key kids).map (own :: ·)

def pathToAmong (key : Key) : List Node → Option (List Key)
  | [] => none
  | n :: ns =>
    match pathTo key n with
    | some path => some path
    | none => pathToAmong key ns

end

/-! ## Recursion equations -/

theorem preorderAll_eq_flatMap (ns : List Node) : preorderAll ns = ns.flatMap preorder := by
  induction ns with
  | nil => rfl
  | cons n ns ih => simp [preorderAll, ih]

theorem preorder_eq (n : Node) : n.preorder = n :: n.children.flatMap preorder := by
  obtain ⟨_, _, _, _ | kids⟩ := n
  · rfl
  · simp [preorder, preorderAll_eq_flatMap, children]

theorem pathToAmong_eq_findSome? (key : Key) (ns : List Node) :
    pathToAmong key ns = ns.findSome? (pathTo key) := by
  induction ns with
  | nil => rfl
  | cons n ns ih => cases h : pathTo key n <;> simp [pathToAmong, h, ih]

theorem pathTo_eq (key : Key) (n : Node) :
    pathTo key n =
      if n.key = key then some [n.key]
      else (n.children.findSome? (pathTo key)).map (n.key :: ·) := by
  obtain ⟨_, _, _, _ | kids⟩ := n
  · simp [pathTo, children]
  · simp [pathTo, pathToAmong_eq_findSome?, children]

end QueryTree.Node
