import QueryTree.Key
import QueryTree.Schema

/-! Catalogs: the tables of a database with typed columns. Every table and column
has an id, which is the key it is picked by. -/

namespace QueryTree

namespace Catalog

inductive ColumnType where
  | integer
  | varchar
  | datetime
  | boolean
deriving DecidableEq

namespace ColumnType

instance : Inhabited ColumnType := ⟨varchar⟩

def all : List ColumnType := [integer, varchar, datetime, boolean]

def text : ColumnType → String
  | integer => "integer"
  | varchar => "varchar"
  | datetime => "datetime"
  | boolean => "boolean"

end ColumnType

structure Column where
  id : Key
  name : String
  type : ColumnType
  isPrimaryKey : Bool
deriving DecidableEq, Inhabited

structure Table where
  id : Key
  name : String
  columns : List Column
deriving DecidableEq, Inhabited

end Catalog

structure Catalog where
  name : String
  tables : List Catalog.Table
deriving DecidableEq, Inhabited

namespace Catalog

/-- A column with a fresh random id. -/
def Column.fresh (name : String) (type : ColumnType) (isPrimaryKey : Bool) : Fresh Column :=
  return { id := ← Key.fresh .uuid, name, type, isPrimaryKey }

/-- A table with a fresh random id. -/
def Table.fresh (name : String) (columns : List Column) : Fresh Table :=
  return { id := ← Key.fresh .uuid, name, columns }

/-- The first column with a name. -/
def Table.column (table : Table) (name : String) : Option Column :=
  table.columns.find? (·.name = name)

/-- The first table with a name. -/
def table (catalog : Catalog) (name : String) : Option Table :=
  catalog.tables.find? (·.name = name)

/-- A table as name resolution sees it: its columns are qualified with its name. -/
def Table.toSchema (table : Table) : Schema.Table where
  key := table.id
  name := table.name
  columns := table.columns.map fun column =>
    { key := column.id, qualifier := some table.name, name := column.name,
      isPrimaryKey := some column.isPrimaryKey }

/-- The tables of a catalog, in order. -/
def toSchema (catalog : Catalog) : Schema := ⟨catalog.tables.map Table.toSchema⟩

end Catalog

end QueryTree
