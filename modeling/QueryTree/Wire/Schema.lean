import QueryTree.Schema
import QueryTree.Wire.Node

/-! The wire form of schemas and offers. -/

namespace QueryTree

namespace Schema.Column

def toJson (column : Column) : Json :=
  .object <|
    [("key", column.key.toJson)]
    ++ Wire.member? "from" (column.qualifier.map .string)
    ++ [("name", .string column.name)]
    ++ Wire.member? "isPk" (column.isPrimaryKey.map .bool)

def memberNames : List String := ["key", "from", "name", "isPk"]

def decode : Wire.Decoder Column
  | 0, _ => none
  | _ + 1, json => do
    let members ← Wire.members? memberNames json
    let key ← Wire.required Wire.key members "key"
    let qualifier ← Wire.optional (some none) (Wire.nullable Wire.text) members "from"
    let name ← Wire.required Wire.text members "name"
    let isPrimaryKey ← Wire.optional (some none) (Wire.nullable Wire.flag) members "isPk"
    return { key, qualifier, name, isPrimaryKey }

end Schema.Column

namespace Schema.Table

def toJson (table : Table) : Json :=
  .object [("key", table.key.toJson), ("name", .string table.name),
    ("columns", .array (table.columns.map Column.toJson))]

def memberNames : List String := ["key", "name", "columns"]

def decode : Wire.Decoder Table
  | 0, _ => none
  | levels + 1, json => do
    let members ← Wire.members? memberNames json
    let key ← Wire.required Wire.key members "key"
    let name ← Wire.required Wire.text members "name"
    let columns ← Wire.required (Wire.list Column.decode levels) members "columns"
    return { key, name, columns }

end Schema.Table

namespace Schema

def toJson (schema : Schema) : Json :=
  .object [("from", .array (schema.tables.map Table.toJson))]

def decode : Wire.Decoder Schema
  | 0, _ => none
  | levels + 1, json => do
    let members ← Wire.members? ["from"] json
    let tables ← Wire.required (Wire.list Table.decode levels) members "from"
    return { tables }

end Schema

namespace Offer

def toJson (offer : Offer) : Json :=
  .object [("columns", .array (offer.columns.map Schema.Column.toJson))]

def decode : Wire.Decoder Offer
  | 0, _ => none
  | levels + 1, json => do
    let members ← Wire.members? ["columns"] json
    let columns ← Wire.required (Wire.list Schema.Column.decode levels) members "columns"
    return { columns }

end Offer

end QueryTree
