import QueryTree.Key
import QueryTree.Node
import QueryTree.Schema

/-! Sketches: trees without keys. The default constructs of a query are sketches,
and one rule gives the nodes of any sketch their keys: children before their
parent, from left to right. -/

namespace QueryTree

structure Sketch where
  tag : Tag
  data : Payload := {}
  parts : Option (List Sketch) := none

namespace Sketch

mutual

/-- Makes the nodes of a sketch, each with a fresh key. -/
def build (kind : KeyKind) : Sketch → Fresh Node
  | ⟨tag, data, none⟩ => do
    let key ← Key.fresh kind
    return { key, tag, data }
  | ⟨tag, data, some parts⟩ => do
    let kids ← buildAll kind parts
    let key ← Key.fresh kind
    return { key, tag, data, kids := some kids }

def buildAll (kind : KeyKind) : List Sketch → Fresh (List Node)
  | [] => pure []
  | part :: parts => do
    let kid ← build kind part
    let kids ← buildAll kind parts
    return kid :: kids

end

/-! ## Default constructs -/

/-- A node without payload and without a list of children. -/
def leaf (tag : Tag) : Sketch := { tag }

/-- A node without payload. -/
def branch (tag : Tag) (parts : List Sketch) : Sketch := { tag, parts := some parts }

/-- Reads all columns of a table that is still to be picked. -/
def select : Sketch :=
  branch .select [branch .columns [], branch .fromClause [leaf .table], leaf .whereClause]

/-- No CTE, and a default select. -/
def query : Sketch := branch .query [branch .ctes [], select]

/-- A variable without an alias. -/
def column : Sketch := branch .column [leaf .var]

/-- A left join with a table and the two variables of its condition. -/
def join : Sketch :=
  { branch .join [leaf .table, branch .joinOn [leaf .var, leaf .var]] with
    data := { joinKind := some .left } }

/-- An alias without text and a default select. -/
def cte : Sketch := branch .cte [leaf .aliasName, select]

/-- A table of a schema with the names of its columns. -/
def sourceTable (table : Schema.Table) : Sketch :=
  { leaf .sourceTable with
    data := { aliasText := some table.name, columnNames := some (table.columns.map (·.name)) } }

/-- Everything that can be queried, for browsing. -/
def sourceList (schema : Schema) : Sketch := branch .list (schema.tables.map sourceTable)

end Sketch

end QueryTree
