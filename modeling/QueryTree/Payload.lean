import QueryTree.Key
import QueryTree.Tag

/-! What a node carries besides its children. Any node may carry any field, but
each tag gives meaning to its own ones only: an alias to its text, a variable to
the raw flag with its SQL or else to a picked column, a table to a picked table,
a join to its kind, a source table to a name and column names. -/

namespace QueryTree

structure Payload where
  aliasText : Option String := none
  isRaw : Bool := false
  rawSql : Option String := none
  selected : Option Key := none
  joinKind : Option JoinKind := none
  columnNames : Option (List String) := none
deriving DecidableEq, Inhabited

namespace Payload

/-- The alias text; an empty text counts as none. -/
def alias? (p : Payload) : Option String := p.aliasText.filter fun text => !text.isEmpty

/-- The picked table or column; an empty key counts as nothing picked. -/
def picked? (p : Payload) : Option Key := p.selected.filter fun key => !key.isBlank

def withAlias (p : Payload) (text : String) : Payload := { p with aliasText := some text }

/-- Gives a variable its SQL and switches it to raw mode. -/
def withRawSql (p : Payload) (sql : String) : Payload :=
  { p with isRaw := true, rawSql := some sql }

def withSelected (p : Payload) (key : Key) : Payload := { p with selected := some key }

def withJoinKind (p : Payload) (kind : JoinKind) : Payload := { p with joinKind := some kind }

theorem alias?_eq_some_iff {p : Payload} {text : String} :
    p.alias? = some text ↔ p.aliasText = some text ∧ text ≠ "" := by
  simp [alias?, Option.filter_eq_some_iff]

theorem picked?_eq_some_iff {p : Payload} {key : Key} :
    p.picked? = some key ↔ p.selected = some key ∧ key.text ≠ "" := by
  simp [picked?, Option.filter_eq_some_iff, Key.isBlank]

end Payload

end QueryTree
