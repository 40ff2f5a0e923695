import QueryTree.Key.Map
import QueryTree.Node.Walk
import QueryTree.Scope

/-! How scopes pass from a node to its children. A query gives its own tables to
its select; a CTE sees the CTEs before it and never those after; a select offers
the columns of its sources to its columns, from and where clauses. All other
children have the scope of their parent. -/

namespace QueryTree.Node

/-- The scopes of CTEs, given the tables of those before them. -/
def cteScopes (scope : Scope) (earlier : List Schema.Table) : List Node → List Scope
  | [] => []
  | cte :: ctes =>
    scope.withLocalSchema ⟨earlier⟩ :: cteScopes scope (earlier ++ cteTables [cte]) ctes

/-- The scopes of the children of a node, in order, given its own scope. -/
def childScopes (scope : Scope) (n : Node) : List Scope :=
  match n.tag with
  | .query =>
    let inner := scope.withLocalSchema n.ownSchema
    n.children.map fun c => if c.tag = .select then inner else scope
  | .ctes => cteScopes scope [] n.children
  | .select =>
    let inner := scope.withOffer (n.offered scope)
    n.children.map fun c =>
      if c.tag = .columns ∨ c.tag = .fromClause ∨ c.tag = .whereClause then inner else scope
  | _ => n.children.map fun _ => scope

/-- The children with their scopes. -/
def scopedChildren (scope : Scope) (n : Node) : List (Node × Scope) :=
  n.children.zip (n.childScopes scope)

/-- The sources that turn out to be missing when the scopes of the children of a
node are derived. -/
def missingSources (scope : Scope) (n : Node) : List MissingSource :=
  if n.tag = .select then n.sources.filterMap (missingSource? scope) else []

/-! ## Along a path -/

/-- The scope of the node that the keys lead to from below `n`. -/
def scopeBelow : Scope → Node → List Key → Option Scope
  | scope, _, [] => some scope
  | scope, n, key :: keys =>
    match (n.scopedChildren scope).find? (·.1.key = key) with
    | some (c, inner) => scopeBelow inner c keys
    | none => none

/-- The scope of the node at a path, derived along that path only. -/
def scopeAt (root : Node) (base : Scope) : List Key → Option Scope
  | [] => none
  | key :: keys => if key = root.key then root.scopeBelow base keys else none

/-- The missing sources that are met below `n` on the way the keys lead. -/
def missingBelow : Scope → Node → List Key → List MissingSource
  | _, _, [] => []
  | scope, n, key :: keys =>
    n.missingSources scope ++
      match (n.scopedChildren scope).find? (·.1.key = key) with
      | some (c, inner) => missingBelow inner c keys
      | none => []

/-- The missing sources that are met on the way along a path. -/
def missingAlong (root : Node) (base : Scope) : List Key → List MissingSource
  | [] => []
  | key :: keys => if key = root.key then root.missingBelow base keys else []

/-! ## Over a whole tree -/

mutual

/-- All nodes in pre-order, each with its scope. -/
def scopedPreorder : Scope → Node → List (Node × Scope)
  | scope, n@⟨_, _, _, none⟩ => [(n, scope)]
  | scope, n@⟨_, _, _, some kids⟩ => (n, scope) :: scopedPreorderAll (n.childScopes scope) kids

def scopedPreorderAll : List Scope → List Node → List (Node × Scope)
  | scope :: scopes, n :: ns => scopedPreorder scope n ++ scopedPreorderAll scopes ns
  | _, _ => []

end

/-- The scope of every node, by key. Of several nodes with one key the last one
counts, at the place of the first. -/
def scopes (root : Node) (base : Scope) : KeyMap Scope :=
  KeyMap.ofList ((root.scopedPreorder base).map fun (n, scope) => (n.key, scope))

/-- The missing sources that are met in the whole tree. -/
def missingEverywhere (root : Node) (base : Scope) : List MissingSource :=
  (root.scopedPreorder base).flatMap fun (n, scope) => n.missingSources scope

/-! ## Recursion equations -/

theorem length_cteScopes (scope : Scope) (earlier : List Schema.Table) (ctes : List Node) :
    (cteScopes scope earlier ctes).length = ctes.length := by
  induction ctes generalizing earlier with
  | nil => rfl
  | cons cte ctes ih => simp [cteScopes, ih]

theorem length_childScopes (scope : Scope) (n : Node) :
    (n.childScopes scope).length = n.children.length := by
  unfold childScopes
  split <;> simp [length_cteScopes]

theorem map_fst_scopedChildren (scope : Scope) (n : Node) :
    (n.scopedChildren scope).map Prod.fst = n.children := by
  rw [scopedChildren, List.map_fst_zip]
  exact Nat.le_of_eq (length_childScopes scope n).symm

theorem scopedPreorderAll_eq_flatMap (scopes : List Scope) (ns : List Node) :
    scopedPreorderAll scopes ns =
      (ns.zip scopes).flatMap fun (n, scope) => n.scopedPreorder scope := by
  induction ns generalizing scopes with
  | nil => cases scopes <;> simp [scopedPreorderAll]
  | cons n ns ih => cases scopes <;> simp [scopedPreorderAll, ih]

theorem scopedPreorder_eq (scope : Scope) (n : Node) :
    n.scopedPreorder scope =
      (n, scope) :: (n.scopedChildren scope).flatMap fun (c, inner) => c.scopedPreorder inner := by
  obtain ⟨_, _, _, _ | kids⟩ := n
  · simp [scopedPreorder, scopedChildren, children]
  · simp [scopedPreorder, scopedPreorderAll_eq_flatMap, scopedChildren, children]

end QueryTree.Node
