import QueryTree.Gesture
import QueryTree.Log
import QueryTree.Scope.Dangling

/-! A document: the query being edited, and what is needed to resolve and render it.
Each request makes a new tree that takes the place of the old one as a whole; a
request that fails leaves the document as it is. So a request has an answer and,
whatever the answer, a document that it leaves behind. -/

namespace QueryTree

structure Document where
  root : Node
  /-- The scope of the root: the tables of the catalog and nothing else. -/
  base : Scope
  /-- Where the keys of new nodes come from. -/
  keyKind : KeyKind := .uuid
  style : Sql.Style := {}

namespace Document

/-- A document around a tree that is already there. -/
def ofRoot (root : Node) (schema : Schema) (keyKind : KeyKind) (style : Sql.Style) : Document where
  root
  base := { schema }
  keyKind
  style

/-- A document with a default query. -/
def fresh (schema : Schema) (keyKind : KeyKind) (style : Sql.Style) : Fresh Document :=
  return ofRoot (← Sketch.query.build keyKind) schema keyKind style

/-- The same document over other tables. -/
def withSchema (doc : Document) (schema : Schema) : Document := { doc with base := { schema } }

/-! ## Editing -/

/-- The events that report the shape of a tree that an edit has made. -/
def shapeEvents (root : Node) : List Log.Event :=
  match root.violations with
  | [] => []
  | first :: others => [.brokenShape (others.length + 1) first]

/-- What comes of a request: the answer with the events, and the document left behind. -/
structure Dispatched extends Logged (Except EditError Document) where
  left : Document

/-- Carries out a request. -/
def dispatch (doc : Document) (request : Request) : Dispatched :=
  let before :=
    .dispatching request.operation request.path.getLast? request.path.length
      :: (doc.root.descents request.path).map .descending
  match request.apply doc.root with
  | .ok root =>
    let next := { doc with root }
    { value := .ok next, events := before ++ shapeEvents root, left := next }
  | .error error => { value := .error error, events := before, left := doc }

/-- A request changes the tree of a document and nothing else. -/
theorem dispatch_value (doc : Document) (request : Request) :
    (doc.dispatch request).value = (request.apply doc.root).map fun root => { doc with root } := by
  rw [dispatch]
  cases request.apply doc.root <;> rfl

/-! ## Reading -/

/-- The scope at a path. -/
def scopeAt (doc : Document) (path : List Key) : Logged (Option Scope) where
  value := doc.root.scopeAt doc.base path
  events := (doc.root.missingAlong doc.base path).map .missingSource

/-- The scope of every node. -/
def scopes (doc : Document) : Logged (KeyMap Scope) :=
  let scopes := doc.root.scopes doc.base
  { value := scopes
    events :=
      (doc.root.missingEverywhere doc.base).map .missingSource
        ++ [.scopesDerived doc.root.key scopes.size] }

/-- The picks that cannot be resolved. -/
def dangling (doc : Document) : Logged (List Dangling) where
  value := doc.root.dangling doc.base
  events := doc.scopes.events

def sql (doc : Document) : Except Sql.RenderError String := Sql.document doc.style doc.root

/-- The SQL text, or the message of the error in its place. -/
def renderSql (doc : Document) : Logged String :=
  match doc.sql with
  | .ok text => ⟨text, []⟩
  | .error error => ⟨error.message, [.errorMarker error]⟩

/-- Everything that can be queried, as a tree. -/
def sourceList (doc : Document) : Fresh Node :=
  (Sketch.sourceList doc.base.schema).build doc.keyKind

end Document

end QueryTree
