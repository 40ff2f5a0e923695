import QueryTree.Payload

/-! The nodes of a query document: each has a key, a tag, a payload and
children. A node without a list of children differs from one whose list is
empty, although neither has a child. -/

namespace QueryTree

structure Node where
  key : Key
  tag : Tag
  data : Payload := {}
  /-- The list of children, if the node has one. -/
  kids : Option (List Node) := none
deriving Inhabited

/-- Which end of a list of children a new child is put at. -/
inductive Place where
  | front
  | back
deriving DecidableEq

namespace Node

/-- The children; none when the list is absent. -/
def children (n : Node) : List Node := n.kids.getD []

/-- What holds for a node whenever it holds for its children holds for all nodes. -/
theorem children_induction {P : Node → Prop} (step : ∀ n, (∀ c ∈ n.children, P c) → P n)
    (n : Node) : P n := by
  refine step n fun c hc => ?_
  exact children_induction step c
termination_by sizeOf n
decreasing_by
  obtain ⟨_, _, _, _ | kids⟩ := n
  · simp [children] at hc
  · have := List.sizeOf_lt_of_mem (show c ∈ kids from hc)
    simp only [mk.sizeOf_spec, Option.some.sizeOf_spec]
    omega

/-! ## Equality -/

mutual

private def decideEq : (a b : Node) → Decidable (a = b)
  | ⟨k, t, d, none⟩, ⟨k', t', d', none⟩ =>
    if h : k = k' ∧ t = t' ∧ d = d' then isTrue (by obtain ⟨rfl, rfl, rfl⟩ := h; rfl)
    else isFalse (by intro e; cases e; exact h ⟨rfl, rfl, rfl⟩)
  | ⟨_, _, _, none⟩, ⟨_, _, _, some _⟩ => isFalse (by intro e; cases e)
  | ⟨_, _, _, some _⟩, ⟨_, _, _, none⟩ => isFalse (by intro e; cases e)
  | ⟨k, t, d, some kids⟩, ⟨k', t', d', some kids'⟩ =>
    match decideEqAll kids kids' with
    | isFalse hs => isFalse (by intro e; cases e; exact hs rfl)
    | isTrue hs =>
      if h : k = k' ∧ t = t' ∧ d = d' then isTrue (by obtain ⟨rfl, rfl, rfl⟩ := h; rw [hs])
      else isFalse (by intro e; cases e; exact h ⟨rfl, rfl, rfl⟩)

private def decideEqAll : (as bs : List Node) → Decidable (as = bs)
  | [], [] => isTrue rfl
  | [], _ :: _ => isFalse (by intro e; cases e)
  | _ :: _, [] => isFalse (by intro e; cases e)
  | a :: as, b :: bs =>
    match decideEq a b with
    | isFalse h => isFalse (by intro e; cases e; exact h rfl)
    | isTrue h =>
      match decideEqAll as bs with
      | isFalse hs => isFalse (by intro e; cases e; exact hs rfl)
      | isTrue hs => isTrue (by rw [h, hs])

end

instance : DecidableEq Node := decideEq

/-! ## Children -/

/-- The first child with a tag. -/
def childOfTag (n : Node) (tag : Tag) : Option Node := n.children.find? (·.tag = tag)

/-- All children with a tag, in order. -/
def childrenOfTag (n : Node) (tag : Tag) : List Node := n.children.filter (·.tag = tag)

/-- The first child with a key. -/
def child (n : Node) (key : Key) : Option Node := n.children.find? (·.key = key)

/-- The text of the first alias child; an empty text counts as none, also when
a later alias child has a text. -/
def alias? (n : Node) : Option String := (n.childOfTag .aliasName).bind (·.data.alias?)

/-- The same key, tag and payload with another list of children. -/
def withChildren (n : Node) (children : List Node) : Node := { n with kids := some children }

/-- The same key, tag and children with another payload. -/
def withData (n : Node) (data : Payload) : Node := { n with data }

/-- One more child, put before or after all others. -/
def addChild (n : Node) (new : Node) : Place → Node
  | .front => n.withChildren (new :: n.children)
  | .back => n.withChildren (n.children ++ [new])

/-- Drops every child with a key. The result has a list of children even if the
node had none. -/
def removeChild (n : Node) (key : Key) : Node := n.withChildren (n.children.filter (·.key ≠ key))

@[simp] theorem children_withChildren (n : Node) (children : List Node) :
    (n.withChildren children).children = children := rfl

@[simp] theorem key_withChildren (n : Node) (children : List Node) :
    (n.withChildren children).key = n.key := rfl

@[simp] theorem tag_withChildren (n : Node) (children : List Node) :
    (n.withChildren children).tag = n.tag := rfl

@[simp] theorem data_withChildren (n : Node) (children : List Node) :
    (n.withChildren children).data = n.data := rfl

@[simp] theorem children_withData (n : Node) (data : Payload) :
    (n.withData data).children = n.children := rfl

@[simp] theorem key_withData (n : Node) (data : Payload) : (n.withData data).key = n.key := rfl

@[simp] theorem tag_withData (n : Node) (data : Payload) : (n.withData data).tag = n.tag := rfl

theorem children_removeChild (n : Node) (key : Key) :
    (n.removeChild key).children = n.children.filter (·.key ≠ key) := rfl

end Node

end QueryTree
