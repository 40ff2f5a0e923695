import QueryTree.Edit
import QueryTree.Scope
import QueryTree.Shape
import QueryTree.Sql
import QueryTree.Text

/-! What a document logs while it is edited, resolved and rendered. Logging is part
of an answer: an operation that logs returns its events, in order, with its value. -/

namespace QueryTree

namespace Log

inductive Level where
  | trace
  | debug
  | warn
deriving DecidableEq

def Level.text : Level → String
  | trace => "trace"
  | debug => "debug"
  | warn => "warn"

inductive Event where
  /-- A request has come in; the target is the last key of its path. -/
  | dispatching (operation : Operation) (target : Option Key) (depth : Nat)
  | descending (step : Descent)
  /-- The edit was made, and the tree it made breaks rules. -/
  | brokenShape (count : Nat) (first : Violation)
  | errorMarker (error : Sql.RenderError)
  | missingSource (source : MissingSource)
  /-- The scopes of all nodes have been derived; the count is that of distinct keys. -/
  | scopesDerived (root : Key) (nodes : Nat)
deriving DecidableEq

namespace Event

def level : Event → Level
  | descending _ => .trace
  | dispatching .. | missingSource _ | scopesDerived .. => .debug
  | brokenShape .. | errorMarker _ => .warn

def message : Event → String
  | dispatching .. => "dispatching mutation"
  | descending _ => "descending"
  | brokenShape .. => "mutation broke document shape"
  | errorMarker _ => "rendering error marker instead of sql"
  | missingSource _ => "table not in scope"
  | scopesDerived .. => "context pass finished"

/-- How an operation is named in a log. -/
def operationName : Operation → String
  | .replace => "Replace"

/-- How a key that may be missing is written in a log. -/
def targetText : Option Key → String
  | some key => "Some(Key(" ++ Text.Quoted.quote key.text ++ "))"
  | none => "None"

/-- The fields of an event, by name. -/
def fields : Event → List (String × String)
  | dispatching operation target depth =>
    [("op", operationName operation), ("target", targetText target), ("depth", toString depth)]
  | descending step =>
    [("node", step.node.text), ("child", step.child.text), ("depth", toString step.depth)]
  | brokenShape count first => [("count", toString count), ("first", first.message)]
  | errorMarker error => [("err", error.message)]
  | missingSource source => [("table", source.table.text), ("node", source.node.text)]
  | scopesDerived root nodes => [("root", root.text), ("nodes", toString nodes)]

end Event

end Log

/-- A value with the events that were logged on the way to it. -/
structure Logged (α : Type) where
  value : α
  events : List Log.Event := []

end QueryTree
