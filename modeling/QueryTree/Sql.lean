import QueryTree.Node

/-! SQL text of a query tree. Missing children become empty text, so every state of
editing has a text. Picked tables and columns are written as placeholders made of
their keys, joins as one fixed placeholder each, and where clauses not at all. -/

namespace QueryTree

namespace Sql

/-- How the text is written. -/
structure Style where
  /-- Write the word before an alias also when there is none. -/
  keepEmptyAlias : Bool := true
  /-- What stands for each join, after a single space. -/
  joinPlaceholder : String := "TODO JOINS"
deriving DecidableEq, Inhabited

namespace Style

/-- Columns without an alias are written without the word before it. -/
def clean : Style := { keepEmptyAlias := false }

end Style

/-- The node at hand has no text, or is not a whole query where one is asked for. -/
inductive RenderError where
  | unsupported (tag : Tag) (key : Key)
deriving DecidableEq

def RenderError.message : RenderError → String
  | unsupported tag key => s!"Can't get SQL for node type: {tag} key: {key}"

/-- What stands for a picked column. -/
def columnReference (key : Key) : String := "\"column_#" ++ key.text ++ "\""

/-- What stands for a picked table. -/
def tableReference (key : Key) : String := "\"table_#" ++ key.text ++ "\""

/-- The text of the first child with a tag, or none. -/
def ofChild (tag : Tag) (render : Node → String) (n : Node) : String :=
  match n.childOfTag tag with
  | some c => render c
  | none => ""

def ofAlias (n : Node) : String := n.data.aliasText.getD ""

/-- Raw SQL in raw mode, else the picked column. -/
def ofVar (n : Node) : String :=
  if n.data.isRaw then n.data.rawSql.getD ""
  else match n.data.picked? with
    | some key => columnReference key
    | none => ""

/-- The picked table with its alias, if it has one. -/
def ofTable (n : Node) : String :=
  let table :=
    match n.data.picked? with
    | some key => tableReference key
    | none => ""
  match n.alias? with
  | some name => table ++ " as " ++ name
  | none => table

def ofColumn (style : Style) (n : Node) : String :=
  let var := ofChild .var ofVar n
  let name := ofChild .aliasName ofAlias n
  if name.isEmpty && !style.keepEmptyAlias then var else var ++ " as " ++ name

/-- The columns, or all of them when none is chosen. -/
def ofColumns (style : Style) (n : Node) : String :=
  match n.childrenOfTag .column with
  | [] => "*"
  | columns => ",".intercalate (columns.map (ofColumn style))

/-- The table, then the joins. -/
def ofFrom (style : Style) (n : Node) : String :=
  let joins := (n.childrenOfTag .join).map fun _ => " " ++ style.joinPlaceholder
  ofChild .table ofTable n ++ String.join joins

def ofSelect (style : Style) (n : Node) : String :=
  let columns :=
    match n.childOfTag .columns with
    | some c => ofColumns style c
    | none => "*"
  "SELECT " ++ columns ++ " FROM " ++ ofChild .fromClause (ofFrom style) n

def ofCte (style : Style) (n : Node) : String :=
  ofChild .aliasName ofAlias n ++ "(" ++ ofChild .select (ofSelect style) n ++ ")"

def ofCtes (style : Style) (n : Node) : String :=
  match n.childrenOfTag .cte with
  | [] => ""
  | ctes => "WITH " ++ ",".intercalate (ctes.map (ofCte style))

def ofQuery (style : Style) (n : Node) : String :=
  ofChild .ctes (ofCtes style) n ++ ofChild .select (ofSelect style) n

/-- The text of any node that has one. -/
def fragment (style : Style) (n : Node) : Except RenderError String :=
  match n.tag with
  | .query => .ok (ofQuery style n)
  | .ctes => .ok (ofCtes style n)
  | .cte => .ok (ofCte style n)
  | .select => .ok (ofSelect style n)
  | .columns => .ok (ofColumns style n)
  | .column => .ok (ofColumn style n)
  | .var => .ok (ofVar n)
  | .fromClause => .ok (ofFrom style n)
  | .table => .ok (ofTable n)
  | .join => .ok style.joinPlaceholder
  | .aliasName => .ok (ofAlias n)
  | .whereClause => .ok ""
  | .joinOn | .list | .sourceTable | .base => .error (.unsupported n.tag n.key)

/-- The text of a whole document, whose root has to be a query. -/
def document (style : Style) (root : Node) : Except RenderError String :=
  if root.tag = .query then .ok (ofQuery style root)
  else .error (.unsupported root.tag root.key)

end Sql

end QueryTree
