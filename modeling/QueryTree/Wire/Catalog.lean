import QueryTree.Catalog
import QueryTree.Wire.Node

/-! The wire form of catalogs. A missing id is filled with a fresh random key, so
reading a catalog may draw keys. -/

namespace QueryTree

/-- Reading that may draw fresh keys and may fail. -/
abbrev Drawing := StateT Supply Option

namespace Drawing

/-- Draws and does not fail. -/
def ofFresh {α : Type} (draw : Fresh α) : Drawing α := fun supply => some (draw.run supply).run

/-- Reads without drawing. -/
def ofRead {α : Type} (value : Option α) : Drawing α := StateT.lift value

/-- Reads each item of an array. -/
def list {α : Type} (decode : Nat → Json → Drawing α) : Nat → Json → Drawing (List α)
  | levels + 1, .array items => items.mapM (decode levels)
  | _, _ => ofRead none

end Drawing

namespace Catalog

/-- A given id, or a fresh one if it is missing. -/
def decodeId (members : Wire.Members) : Drawing Key :=
  Wire.optional (.ofFresh (Key.fresh .uuid)) (fun json => .ofRead (Wire.key json)) members "id"

namespace ColumnType

def toJson (type : ColumnType) : Json := .string type.text

def decode : Wire.Decoder ColumnType := Wire.choice all text

end ColumnType

namespace Column

def toJson (column : Column) : Json :=
  .object [("id", column.id.toJson), ("name", .string column.name), ("type", column.type.toJson),
    ("is_pk", .bool column.isPrimaryKey)]

def memberNames : List String := ["id", "name", "type", "is_pk"]

def decode : Nat → Json → Drawing Column
  | 0, _ => .ofRead none
  | levels + 1, json => do
    let members ← Drawing.ofRead (Wire.members? memberNames json)
    let name ← Drawing.ofRead (Wire.required Wire.text members "name")
    let type ←
      Drawing.ofRead (Wire.optional (some default) (ColumnType.decode levels) members "type")
    let isPrimaryKey ← Drawing.ofRead (Wire.optional (some false) Wire.flag members "is_pk")
    let id ← decodeId members
    return { id, name, type, isPrimaryKey }

end Column

namespace Table

def toJson (table : Table) : Json :=
  .object [("id", table.id.toJson), ("name", .string table.name),
    ("columns", .array (table.columns.map Column.toJson))]

def memberNames : List String := ["id", "name", "columns"]

def decode : Nat → Json → Drawing Table
  | 0, _ => .ofRead none
  | levels + 1, json => do
    let members ← Drawing.ofRead (Wire.members? memberNames json)
    let name ← Drawing.ofRead (Wire.required Wire.text members "name")
    let columns ← Wire.optional (pure []) (Drawing.list Column.decode levels) members "columns"
    -- What is missing is filled in last, after the columns have drawn their ids.
    let id ← decodeId members
    return { id, name, columns }

end Table

def toJson (catalog : Catalog) : Json :=
  .object [("name", .string catalog.name), ("tables", .array (catalog.tables.map Table.toJson))]

def memberNames : List String := ["name", "tables"]

def decode : Nat → Json → Drawing Catalog
  | 0, _ => .ofRead none
  | levels + 1, json => do
    let members ← Drawing.ofRead (Wire.members? memberNames json)
    let name ← Drawing.ofRead (Wire.required Wire.text members "name")
    let tables ← Wire.optional (pure []) (Drawing.list Table.decode levels) members "tables"
    return { name, tables }

/-- Reads a catalog from a text. -/
def ofText (text : String) : Drawing Catalog := do
  let json ← Drawing.ofRead (Json.parse text)
  decode Wire.maxLevels json

inductive LoadError where
  /-- There are no bytes to read, or they are not text in UTF-8. -/
  | unreadable
  | malformed
deriving DecidableEq

/-- Reads a catalog from the bytes of a file, if the file could be read. -/
def load (contents : Option ByteArray) : StateT Supply (Except LoadError) Catalog :=
  fun supply =>
    match contents.bind String.fromUTF8? with
    | none => .error .unreadable
    | some text =>
      match (ofText text).run supply with
      | none => .error .malformed
      | some answer => .ok answer

end Catalog

end QueryTree
