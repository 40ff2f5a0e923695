import QueryTree.Json
import QueryTree.Json.Token

/-! Putting tokens together to a JSON value. The values that are still open
around the current position are kept on a stack, so the pass over the tokens
is a plain fold and nesting is not limited. -/

namespace QueryTree.Json

/-- An array or object that is still open, with the items or members before
the current one, last first. A member name without text is kept as none. -/
inductive Frame where
  | array (before : List Json)
  | object (before : List (Option String × Json)) (name : Option String)

/-- What the next token has to be. -/
inductive Assembly where
  | value (stack : List Frame)
  | firstItem (stack : List Frame)
  | firstName (stack : List Frame)
  | name (before : List (Option String × Json)) (stack : List Frame)
  | colon (before : List (Option String × Json)) (name : Option String) (stack : List Frame)
  /-- A value is complete; a separator or a closing bracket follows. -/
  | after (value : Json) (stack : List Frame)

/-- An object of members given last first; one name without text spoils it. -/
def closeMembers (members : List (Option String × Json)) : Json :=
  match members.reverse.mapM fun member => member.1.map (·, member.2) with
  | some members => .object members
  | none => .garbled

namespace Assembly

/-- The first token of a value. -/
def enter (stack : List Frame) : Token → Option Assembly
  | .openArray => some (firstItem stack)
  | .openObject => some (firstName stack)
  | .null => some (after .null stack)
  | .bool flag => some (after (.bool flag) stack)
  | .number literal => some (after (.number literal) stack)
  | .string (some text) => some (after (.string text) stack)
  | .string none => some (after .garbled stack)
  | .closeArray | .closeObject | .comma | .colon => none

def step : Assembly → Token → Option Assembly
  | value stack, token => enter stack token
  | firstItem stack, .closeArray => some (after (.array []) stack)
  | firstItem stack, token => enter (.array [] :: stack) token
  | firstName stack, .closeObject => some (after (.object []) stack)
  | firstName stack, .string text => some (colon [] text stack)
  | firstName _, _ => none
  | name before stack, .string text => some (colon before text stack)
  | name _ _, _ => none
  | colon before text stack, .colon => some (value (.object before text :: stack))
  | colon _ _ _, _ => none
  | after item (.array before :: stack), .comma => some (value (.array (item :: before) :: stack))
  | after item (.array before :: stack), .closeArray =>
    some (after (.array (item :: before).reverse) stack)
  | after item (.object before text :: stack), .comma =>
    some (name ((text, item) :: before) stack)
  | after item (.object before text :: stack), .closeObject =>
    some (after (closeMembers ((text, item) :: before)) stack)
  | after _ _, _ => none

/-- The value, once it is complete and nothing is open around it. -/
def finish : Assembly → Option Json
  | after done [] => some done
  | _ => none

end Assembly

/-- The value that a sequence of tokens writes. -/
def ofTokens? (tokens : List Token) : Option Json :=
  (tokens.foldlM Assembly.step (.value [])).bind Assembly.finish

/-- The value that a text writes, blanks around it allowed and nothing else. -/
def parse (text : String) : Option Json := (scan text.toList).bind ofTokens?

end QueryTree.Json
