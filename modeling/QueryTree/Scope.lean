import QueryTree.Node
import QueryTree.Schema

/-! Scopes: what can be named at one point of a tree, and what the tree itself adds to
it. Scopes are derived from the root downwards and never stored in the tree. A select
exposes its aliased columns, and a CTE with an alias makes a table of them. A select
reads the table of its from clause and that of each join. -/

namespace QueryTree

structure Scope where
  /-- The tables of the catalog. -/
  schema : Schema := {}
  /-- The tables that the query around this point defines for itself. -/
  localSchema : Schema := {}
  /-- The columns of the sources of the select around this point. -/
  offer : Offer := {}
deriving DecidableEq, Inhabited

namespace Scope

/-- Own tables come before those of the catalog, in pickers and in look-ups. -/
def visibleTables (scope : Scope) : List Schema.Table :=
  scope.localSchema.tables ++ scope.schema.tables

def findTable? (scope : Scope) (key : Key) : Option Schema.Table :=
  scope.visibleTables.find? (·.key = key)

def findColumn? (scope : Scope) (key : Key) : Option Schema.Column := scope.offer.find? key

def withLocalSchema (scope : Scope) (localSchema : Schema) : Scope := { scope with localSchema }

def withOffer (scope : Scope) (offer : Offer) : Scope := { scope with offer }

end Scope

/-- A source whose picked table is not in scope. -/
structure MissingSource where
  node : Key
  table : Key
deriving DecidableEq

namespace Node

/-! ## What a select exposes -/

/-- A column with an alias, by that name; a column without one cannot be named. -/
def namedColumn? (column : Node) : Option Schema.Column :=
  column.alias?.map fun name => { key := column.key, name }

/-- The named columns of a select, in order. -/
def exposedColumns (select : Node) : List Schema.Column :=
  match select.childOfTag .columns with
  | some columns => (columns.childrenOfTag .column).filterMap namedColumn?
  | none => []

/-- The table that a CTE defines, if it has an alias and a select. -/
def cteTable? (cte : Node) : Option Schema.Table := do
  let name ← cte.alias?
  let select ← cte.childOfTag .select
  return { key := cte.key, name, columns := select.exposedColumns.map (·.withQualifier name) }

/-- The tables that the CTEs among some nodes define, in order. -/
def cteTables (nodes : List Node) : List Schema.Table :=
  (nodes.filter (·.tag = .cte)).filterMap cteTable?

/-- The tables that a query defines for itself. -/
def ownSchema (query : Node) : Schema :=
  match query.childOfTag .ctes with
  | some ctes => ⟨cteTables ctes.children⟩
  | none => {}

/-! ## What a select reads -/

/-- The table nodes that a select reads: that of its from clause, then those of
the joins. -/
def sources (select : Node) : List Node :=
  match select.childOfTag .fromClause with
  | some clause => (clause :: clause.childrenOfTag .join).filterMap (·.childOfTag .table)
  | none => []

/-- The table picked in a table node, if it is in scope. -/
def sourceTable? (scope : Scope) (source : Node) : Option Schema.Table :=
  source.data.picked?.bind scope.findTable?

/-- The named columns of the table picked in a table node, qualified with the alias
that the node gives it, if any. -/
def sourceColumns (scope : Scope) (source : Node) : List Schema.Column :=
  match source.sourceTable? scope with
  | some table =>
    (table.columns.filter (·.name ≠ "")).map fun column =>
      match source.alias? with
      | some name => column.withQualifier name
      | none => column
  | none => []

/-- The columns of all sources of a select, repeated ones included. -/
def offered (scope : Scope) (select : Node) : Offer :=
  ⟨select.sources.flatMap (sourceColumns scope)⟩

/-- A table node whose pick is not in scope. -/
def missingSource? (scope : Scope) (source : Node) : Option MissingSource := do
  let table ← source.data.picked?
  if (scope.findTable? table).isNone then return { node := source.key, table } else none

end Node

end QueryTree
