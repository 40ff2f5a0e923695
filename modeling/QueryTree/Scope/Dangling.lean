import QueryTree.Scope.Derivation

/-! Picks that their scope cannot resolve, such as a column of a table that has
since been swapped for another. Rendering falls back to a placeholder; this only
reports them. -/

namespace QueryTree

inductive Dangling where
  | table (node key : Key)
  | column (node key : Key)
deriving DecidableEq

namespace Dangling

def node : Dangling → Key
  | table node _ | column node _ => node

def key : Dangling → Key
  | table _ key | column _ key => key

def message : Dangling → String
  | table node key => s!"table node {node} references unknown table {key}"
  | column node key => s!"var node {node} references unknown column {key}"

end Dangling

namespace Node

/-- The pick of a table, or of a variable that is not raw, if it is not in scope. -/
def danglingPick? (scope : Scope) (n : Node) : Option Dangling :=
  n.data.picked?.bind fun key =>
    match n.tag with
    | .table => if (scope.findTable? key).isNone then some (.table n.key key) else none
    | .var =>
      if !n.data.isRaw && (scope.findColumn? key).isNone then some (.column n.key key) else none
    | _ => none

/-- All dangling picks of a tree, in pre-order. The scope of a node is looked up by
its key. -/
def dangling (root : Node) (base : Scope) : List Dangling :=
  let scopes := root.scopes base
  root.preorder.filterMap fun n => (scopes.get? n.key).bind n.danglingPick?

end Node

end QueryTree
