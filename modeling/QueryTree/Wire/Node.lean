import QueryTree.Edit
import QueryTree.Wire.Decoder

/-! The wire form of nodes and requests. -/

namespace QueryTree

namespace Key

def toJson (key : Key) : Json := .string key.text

end Key

namespace KeyKind

def toJson (kind : KeyKind) : Json := .string kind.text

def decode : Wire.Decoder KeyKind := Wire.choice all text

end KeyKind

namespace Tag

def toJson (tag : Tag) : Json := .string tag.text

def decode : Wire.Decoder Tag := Wire.choice all text

end Tag

namespace JoinKind

def toJson (kind : JoinKind) : Json := .string kind.text

def decode : Wire.Decoder JoinKind := Wire.choice all text

end JoinKind

namespace Payload

/-- Only what is set is written: no absent field, and the raw flag only if it is up. -/
def toJson (data : Payload) : Json :=
  .object <|
    Wire.member? "alias" (data.aliasText.map .string)
    ++ Wire.member? "isRaw" (if data.isRaw then some (.bool true) else none)
    ++ Wire.member? "rawSql" (data.rawSql.map .string)
    ++ Wire.member? "selectedValue" (data.selected.map Key.toJson)
    ++ Wire.member? "type" (data.joinKind.map JoinKind.toJson)
    ++ Wire.member? "columns" (data.columnNames.map fun names => .array (names.map .string))

def memberNames : List String := ["alias", "isRaw", "rawSql", "selectedValue", "type", "columns"]

def decode : Wire.Decoder Payload
  | 0, _ => none
  | levels + 1, json => do
    let members ← Wire.members? memberNames json
    let aliasText ← Wire.optional (some none) (Wire.nullable Wire.text) members "alias"
    let isRaw ← Wire.optional (some false) Wire.flag members "isRaw"
    let rawSql ← Wire.optional (some none) (Wire.nullable Wire.text) members "rawSql"
    let selected ← Wire.optional (some none) (Wire.nullable Wire.key) members "selectedValue"
    let joinKind ←
      Wire.optional (some none) (Wire.nullable (JoinKind.decode levels)) members "type"
    let columnNames ←
      Wire.optional (some none) (Wire.nullable (Wire.list (fun _ => Wire.text) levels)) members
        "columns"
    return { aliasText, isRaw, rawSql, selected, joinKind, columnNames }

end Payload

namespace Node

mutual

/-- The children are written exactly if the node has a list of them. -/
def toJson : Node → Json
  | ⟨key, tag, data, none⟩ =>
    .object [("key", key.toJson), ("type", tag.toJson), ("data", data.toJson)]
  | ⟨key, tag, data, some kids⟩ =>
    .object [("key", key.toJson), ("type", tag.toJson), ("data", data.toJson),
      ("children", .array (toJsonAll kids))]

def toJsonAll : List Node → List Json
  | [] => []
  | n :: ns => toJson n :: toJsonAll ns

end

def memberNames : List String := ["key", "type", "data", "children"]

mutual

def decode : Wire.Decoder Node
  | 0, _ => none
  | levels + 1, json => do
    let members ← Wire.members? memberNames json
    let key ← Wire.required Wire.key members "key"
    let tag ← Wire.required (Tag.decode levels) members "type"
    let data ← Wire.optional (some {}) (Payload.decode levels) members "data"
    let kids ← Wire.optional (some none) (Wire.nullable (decodeAll levels)) members "children"
    return { key, tag, data, kids }

def decodeAll : Wire.Decoder (List Node)
  | 0, _ => none
  | levels + 1, json =>
    match json with
    | .array items => items.mapM (decode levels)
    | _ => none

end

theorem toJsonAll_eq_map (ns : List Node) : toJsonAll ns = ns.map toJson := by
  induction ns with
  | nil => rfl
  | cons n ns ih => simp [toJsonAll, ih]

end Node

namespace Operation

def toJson (operation : Operation) : Json := .string operation.text

def decode : Wire.Decoder Operation := Wire.choice all text

end Operation

namespace Request

def toJson (request : Request) : Json :=
  .object [("op", request.operation.toJson), ("path", .array (request.path.map Key.toJson)),
    ("replacement", request.replacement.toJson)]

def memberNames : List String := ["op", "path", "replacement"]

def decode : Wire.Decoder Request
  | 0, _ => none
  | levels + 1, json => do
    let members ← Wire.members? memberNames json
    let operation ← Wire.required (Operation.decode levels) members "op"
    let path ← Wire.required (Wire.list (fun _ => Wire.key) levels) members "path"
    let replacement ← Wire.required (Node.decode levels) members "replacement"
    return { operation, path, replacement }

end Request

end QueryTree
