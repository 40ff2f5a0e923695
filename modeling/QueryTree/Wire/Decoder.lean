import QueryTree.Json.Reader
import QueryTree.Key

/-! Reading records out of JSON. Names and texts are case sensitive and nothing is
coerced. A record is an object, whose unknown members are ignored, or an array of
its members in their fixed order, of which trailing ones may be missing. A choice
is the name of an option, or an object with that name as its only member and null
as its value.

A decoder is told how many arrays and objects it may still enter. The count
covers the values that are used; ignored members may be nested at will. -/

namespace QueryTree.Wire

/-- Reads a value, given the number of arrays and objects that may be entered. -/
abbrev Decoder (α : Type) := Nat → Json → Option α

/-- The members of a record, by name. -/
abbrev Members := List (String × Json)

/-- How deeply arrays and objects may be nested in a text. -/
def maxLevels : Nat := 127

/-- Reads a text. -/
def ofText? {α : Type} (decode : Decoder α) (text : String) : Option α :=
  (Json.parse text).bind (decode maxLevels)

/-- Reads a value that is already at hand, however deeply it is nested. -/
def ofJson? {α : Type} (decode : Decoder α) (json : Json) : Option α := decode json.depth json

/-! ## Plain values -/

def text : Json → Option String
  | .string text => some text
  | _ => none

def key (json : Json) : Option Key := (text json).map Key.mk

def flag : Json → Option Bool
  | .bool value => some value
  | _ => none

/-- Reads null as nothing. -/
def nullable {α : Type} (read : Json → Option α) : Json → Option (Option α)
  | .null => some none
  | json => (read json).map some

/-! ## Lists, choices and records -/

/-- Reads each item of an array. -/
def list {α : Type} (decode : Decoder α) : Decoder (List α)
  | levels + 1, .array items => items.mapM (decode levels)
  | _, _ => none

/-- Reads one of some options by its name. -/
def choice {α : Type} (options : List α) (name : α → String) : Decoder α
  | _, .string chosen => options.find? (name · = chosen)
  | _ + 1, .object [(chosen, .null)] => options.find? (name · = chosen)
  | _, _ => none

/-- The members of a record whose members have these names. None of the names may
be repeated. -/
def members? (names : List String) : Json → Option Members
  | .object members =>
    if names.all fun name => members.countP (·.1 = name) ≤ 1 then some members else none
  | .array items => if items.length ≤ names.length then some (names.zip items) else none
  | _ => none

/-- Reads a member that has to be there. -/
def required {α : Type} (read : Json → Option α) (members : Members) (name : String) :
    Option α :=
  (members.lookup name).bind read

/-- Reads a member that may be missing, in which case `missing` is done instead. -/
def optional {m : Type → Type} {α : Type} (missing : m α) (read : Json → m α)
    (members : Members) (name : String) : m α :=
  match members.lookup name with
  | some json => read json
  | none => missing

/-! ## Writing -/

/-- A member, if it has a value. -/
def member? (name : String) (json : Option Json) : Members := (json.map (name, ·)).toList

end QueryTree.Wire
