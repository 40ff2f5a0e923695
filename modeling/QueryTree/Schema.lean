import QueryTree.Key

/-! What queries can read: tables with their columns, as name resolution sees
them. A table is one of a catalog or one that a query defines for itself. -/

namespace QueryTree

namespace Schema

structure Column where
  key : Key
  /-- The name or alias of the table that the column is qualified with. -/
  qualifier : Option String := none
  name : String
  isPrimaryKey : Option Bool := none
deriving DecidableEq, Inhabited

structure Table where
  key : Key
  name : String
  columns : List Column
deriving DecidableEq, Inhabited

end Schema

/-- An ordered list of tables; of two tables with one key the first is meant. -/
structure Schema where
  tables : List Schema.Table := []
deriving DecidableEq, Inhabited

/-- The columns on offer to a column picker; of two columns with one key the
first is meant. -/
structure Offer where
  columns : List Schema.Column := []
deriving DecidableEq, Inhabited

namespace Schema

namespace Column

def withQualifier (c : Column) (qualifier : String) : Column :=
  { c with qualifier := some qualifier }

/-- The name, after its qualifier and a dot if it has one. -/
def label (c : Column) : String :=
  match c.qualifier with
  | some qualifier => qualifier ++ "." ++ c.name
  | none => c.name

end Column

def find? (schema : Schema) (key : Key) : Option Table := schema.tables.find? (·.key = key)

def isEmpty (schema : Schema) : Bool := schema.tables.isEmpty

end Schema

namespace Offer

def find? (offer : Offer) (key : Key) : Option Schema.Column := offer.columns.find? (·.key = key)

end Offer

end QueryTree
