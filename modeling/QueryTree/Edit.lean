import QueryTree.Node.Walk

/-! Edits by key path. The only way to change a tree is to replace the node at a
path; everything beside the path stays as it is. A path begins with the key of
the root, but that first key is never looked at: the tree at hand is the root. -/

namespace QueryTree

inductive EditError where
  | emptyPath
  /-- The node `parent` has no child with the next key of the path. -/
  | noSuchChild (parent key : Key)
deriving DecidableEq

namespace EditError

def message : EditError → String
  | emptyPath => "mutation path is empty"
  | noSuchChild parent key => s!"path not found: node {parent} has no child {key}"

end EditError

/-- One step down a path: the node left, the child entered, and the number of
keys that were still to follow, the child's own included. -/
structure Descent where
  node : Key
  child : Key
  depth : Nat
deriving DecidableEq

namespace Node

/-- The node that the keys lead to from below `n`, or the first miss. -/
def locateBelow : Node → List Key → Except EditError Node
  | n, [] => .ok n
  | n, key :: keys =>
    match n.child key with
    | some c => locateBelow c keys
    | none => .error (.noSuchChild n.key key)

/-- The node at a path. -/
def locate (root : Node) : List Key → Except EditError Node
  | [] => .error .emptyPath
  | _ :: keys => root.locateBelow keys

/-- Puts a node in the place of the first one with a key. -/
def replaceFirst (key : Key) (new : Node) : List Node → List Node
  | [] => []
  | n :: ns => if n.key = key then new :: ns else n :: replaceFirst key new ns

/-- `n` with a replacement for the node that the keys lead to from below it. -/
def replaceBelow (replacement : Node) : Node → List Key → Except EditError Node
  | _, [] => .ok replacement
  | n, key :: keys =>
    match n.child key with
    | some c =>
      (replaceBelow replacement c keys).map fun new =>
        n.withChildren (replaceFirst key new n.children)
    | none => .error (.noSuchChild n.key key)

/-- The tree with a replacement for the node at a path. The replacement is
total: nothing of the old node, children included, is kept. -/
def replaceAt (root : Node) (path : List Key) (replacement : Node) : Except EditError Node :=
  match path with
  | [] => .error .emptyPath
  | _ :: keys => replaceBelow replacement root keys

/-- The tree with one more child at the node at a path. -/
def addChildAt (root : Node) (path : List Key) (new : Node) (place : Place) :
    Except EditError Node := do
  let target ← root.locate path
  root.replaceAt path (target.addChild new place)

/-- The tree without the children of one key at the node at a path. -/
def removeChildAt (root : Node) (path : List Key) (key : Key) : Except EditError Node := do
  let target ← root.locate path
  root.replaceAt path (target.removeChild key)

/-- The steps down from `n` that succeed before the keys end or one is missing. -/
def descentsBelow : Node → List Key → List Descent
  | _, [] => []
  | n, key :: keys =>
    match n.child key with
    | some c => ⟨n.key, key, keys.length + 1⟩ :: descentsBelow c keys
    | none => []

/-- The steps that replacing the node at a path takes. -/
def descents (root : Node) (path : List Key) : List Descent := root.descentsBelow path.tail

end Node

/-! ## Requests -/

/-- What a request does at its path. -/
inductive Operation where
  | replace
deriving DecidableEq, Inhabited

namespace Operation

def all : List Operation := [replace]

def text : Operation → String
  | replace => "replace"

end Operation

structure Request where
  operation : Operation := .replace
  /-- The key path from the root down to the node that is replaced. -/
  path : List Key
  replacement : Node
deriving DecidableEq

/-- The tree after a request. -/
def Request.apply (request : Request) (root : Node) : Except EditError Node :=
  match request.operation with
  | .replace => root.replaceAt request.path request.replacement

end QueryTree
