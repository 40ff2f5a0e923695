import QueryTree.Edit
import QueryTree.Sketch

/-! Editing gestures. Each becomes one request that replaces its target, which is
the node as it is seen at that moment. -/

namespace QueryTree

/-- A gesture that changes one field of a payload. -/
inductive PayloadEdit where
  | setAlias (text : String)
  /-- Switches a variable between raw SQL and a picked column; both survive. -/
  | toggleRaw
  | setRawSql (sql : String)
  /-- Picks a column or a table, or clears the pick. -/
  | select (key : Option Key)
  | setJoinKind (kind : JoinKind)

def PayloadEdit.apply (data : Payload) : PayloadEdit → Payload
  | setAlias text => { data with aliasText := some text }
  | toggleRaw => { data with isRaw := !data.isRaw }
  | setRawSql sql => { data with rawSql := some sql }
  | select key => { data with selected := key }
  | setJoinKind kind => { data with joinKind := some kind }

inductive Gesture where
  | replace (replacement : Node)
  | addChild (child : Node) (place : Place)
  | removeChild (key : Key)
  /-- Adds an alias without text to a column or table, or drops the one it has. -/
  | toggleAlias
  | edit (change : PayloadEdit)

namespace Gesture

/-- The node that takes the place of the target. -/
def revise (kind : KeyKind) (target : Node) : Gesture → Fresh Node
  | replace replacement => pure replacement
  | addChild child place => pure (target.addChild child place)
  | removeChild key => pure (target.removeChild key)
  | toggleAlias =>
    match target.childOfTag .aliasName with
    | some child => pure (target.removeChild child.key)
    | none => return target.addChild (← (Sketch.leaf .aliasName).build kind) .back
  | edit change => pure (target.withData (change.apply target.data))

/-- The request that carries out a gesture on the node at a path. -/
def request (kind : KeyKind) (target : Node) (path : List Key) (gesture : Gesture) :
    Fresh Request :=
  return { path, replacement := ← gesture.revise kind target }

end Gesture

end QueryTree
