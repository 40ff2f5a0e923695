import QueryTree.Node.Walk

/-! The shape of a query document: keys are not used twice, and some tags fix
which children a node has. What is still incomplete, such as a CTE without an
alias or a table not yet picked, breaks no rule. -/

namespace QueryTree

/-- A broken rule; all but the first name the node that breaks the rule of its tag. -/
inductive Violation where
  | duplicateKey (key : Key)
  | query (key : Key)
  | select (key : Key)
  | fromClause (key : Key)
  | column (key : Key)
  | join (key : Key)
  | joinOn (key : Key)
deriving DecidableEq

namespace Violation

def key : Violation → Key
  | duplicateKey key | query key | select key | fromClause key | column key | join key
  | joinOn key => key

def message : Violation → String
  | duplicateKey key => s!"key {key} is used by more than one node"
  | query key => s!"query {key} must have exactly one ctes and one select child"
  | select key =>
    s!"select {key} must have exactly columns, from, where children in that order"
  | fromClause key => s!"from {key} must have exactly one table child"
  | column key => s!"column {key} must have one var child and at most one alias child"
  | join key => s!"join {key} must have exactly one table and one joinOn child"
  | joinOn key => s!"joinOn {key} must have exactly two var children"

end Violation

namespace Node

/-- The number of children with a tag. -/
def count (n : Node) (tag : Tag) : Nat := n.children.countP (·.tag = tag)

/-- The rule of the node's tag, as a violation if the node breaks it. -/
def brokenRule? (n : Node) : Option Violation :=
  match n.tag with
  | .query =>
    if n.count .ctes = 1 ∧ n.count .select = 1 then none else some (.query n.key)
  | .select =>
    if n.children.map (·.tag) = [.columns, .fromClause, .whereClause] then none
    else some (.select n.key)
  | .fromClause => if n.count .table = 1 then none else some (.fromClause n.key)
  | .column =>
    if n.count .var = 1 ∧ n.count .aliasName ≤ 1 then none else some (.column n.key)
  | .join =>
    if n.count .table = 1 ∧ n.count .joinOn = 1 then none else some (.join n.key)
  | .joinOn =>
    if n.count .var = 2 ∧ n.children.length = 2 then none else some (.joinOn n.key)
  | .base | .list | .var | .ctes | .cte | .columns | .whereClause | .table | .aliasName
  | .sourceTable => none

/-- The violations of nodes given in order, after nodes whose keys are `seen`. -/
def violationsAfter (seen : List Key) : List Node → List Violation
  | [] => []
  | n :: ns =>
    (if n.key ∈ seen then [.duplicateKey n.key] else []) ++ n.brokenRule?.toList
      ++ violationsAfter (n.key :: seen) ns

/-- Every violation in a tree, in pre-order. A node that repeats a key is
reported before it is held against the rule of its tag. -/
def violations (root : Node) : List Violation := violationsAfter [] root.preorder

end Node

end QueryTree
