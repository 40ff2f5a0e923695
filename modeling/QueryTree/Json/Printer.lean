import QueryTree.Json
import QueryTree.Json.Token

/-! Writing JSON values, compactly or indented. The compact form is the text of
the value's tokens with nothing in between; the indented form has the same
tokens, puts each item and member on a line of its own, two spaces deeper than
the bracket before it, and leaves empty arrays and objects closed. -/

namespace QueryTree.Json

/-- Quotes, backslashes and control characters are escaped, the usual ones by a
letter; all other characters stand for themselves. -/
def escape (c : Char) : List Char :=
  match c with
  | '"' => ['\\', '"']
  | '\\' => ['\\', '\\']
  | '\x08' => ['\\', 'b']
  | '\t' => ['\\', 't']
  | '\n' => ['\\', 'n']
  | '\x0c' => ['\\', 'f']
  | '\r' => ['\\', 'r']
  | _ => if c.toNat < 0x20 then '\\' :: 'u' :: Text.Hex.fixed 4 c.toNat else [c]

/-- A string literal. -/
def quote (text : String) : List Char := '"' :: (text.toList.flatMap escape ++ ['"'])

/-- How a token is written. A string without text is written as one unpaired half. -/
def Token.text : Token → List Char
  | openArray => ['[']
  | closeArray => [']']
  | openObject => ['\x7b']
  | closeObject => ['\x7d']
  | comma => [',']
  | colon => [':']
  | null => ['n', 'u', 'l', 'l']
  | bool true => ['t', 'r', 'u', 'e']
  | bool false => ['f', 'a', 'l', 's', 'e']
  | number literal => literal.toList
  | string (some text) => quote text
  | string none => '"' :: '\\' :: 'u' :: Text.Hex.fixed 4 0xD800 ++ ['"']

mutual

/-- The tokens that write a value. -/
def tokens : Json → List Token
  | null => [.null]
  | bool value => [.bool value]
  | number literal => [.number literal]
  | string text => [.string (some text)]
  | garbled => [.string none]
  | array items => .openArray :: tokensOfItems items ++ [.closeArray]
  | object members => .openObject :: tokensOfMembers members ++ [.closeObject]

/-- Items with a comma between two of them. -/
def tokensOfItems : List Json → List Token
  | [] => []
  | [item] => tokens item
  | item :: items => tokens item ++ .comma :: tokensOfItems items

/-- Members with a comma between two of them. -/
def tokensOfMembers : List (String × Json) → List Token
  | [] => []
  | [(name, value)] => .string (some name) :: .colon :: tokens value
  | (name, value) :: members =>
    .string (some name) :: .colon :: tokens value ++ .comma :: tokensOfMembers members

end

/-- A line break and the indentation of a line `level` brackets deep. -/
def lineBreak (level : Nat) : List Char := '\n' :: List.replicate (2 * level) ' '

mutual

/-- The indented text of a value `level` brackets deep. -/
def indented (level : Nat) : Json → List Char
  | array items =>
    if items.isEmpty then ['[', ']']
    else '[' :: indentedItems (level + 1) items ++ lineBreak level ++ [']']
  | object members =>
    if members.isEmpty then ['\x7b', '\x7d']
    else '\x7b' :: indentedMembers (level + 1) members ++ lineBreak level ++ ['\x7d']
  | null => Token.text .null
  | bool value => Token.text (.bool value)
  | number literal => Token.text (.number literal)
  | string text => Token.text (.string (some text))
  | garbled => Token.text (.string none)

def indentedItems (level : Nat) : List Json → List Char
  | [] => []
  | [item] => lineBreak level ++ indented level item
  | item :: items => lineBreak level ++ indented level item ++ ',' :: indentedItems level items

def indentedMembers (level : Nat) : List (String × Json) → List Char
  | [] => []
  | [(name, value)] => lineBreak level ++ quote name ++ ':' :: ' ' :: indented level value
  | (name, value) :: members =>
    lineBreak level ++ quote name ++ ':' :: ' ' :: indented level value
      ++ ',' :: indentedMembers level members

end

/-- The value on one line, without blanks. -/
def compact (value : Json) : String := String.ofList (value.tokens.flatMap Token.text)

/-- The value over several lines. -/
def pretty (value : Json) : String := String.ofList (indented 0 value)

end QueryTree.Json
