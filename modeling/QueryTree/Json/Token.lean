import QueryTree.Text

/-! The tokens of JSON text. One pass over the characters splits a text into
tokens by the strict grammar: no comments, no byte order mark, no control
character inside a string, no leading zero, and only space, tab, line feed and
carriage return between tokens.

Two tokens that stand side by side without a separator, such as `01`, are
still split here. No arrangement of values allows that, so the text is
refused when its tokens are put together. -/

namespace QueryTree.Json

inductive Token where
  | openArray
  | closeArray
  | openObject
  | closeObject
  | comma
  | colon
  | null
  | bool (value : Bool)
  | number (literal : String)
  /-- No text when the literal escapes an unpaired half of a surrogate pair. -/
  | string (text : Option String)
deriving DecidableEq

/-! ## String literals -/

/-- What one step through a string literal yields: a character, or the
sixteen bits of a numeric escape. -/
inductive Piece where
  | char (c : Char)
  | unit (bits : Nat)

namespace Piece

/-- A unit that opens a surrogate pair. -/
def IsLeading (bits : Nat) : Prop := 0xD800 ≤ bits ∧ bits < 0xDC00

/-- A unit that closes a surrogate pair. -/
def IsTrailing (bits : Nat) : Prop := 0xDC00 ≤ bits ∧ bits < 0xE000

instance (bits : Nat) : Decidable (IsLeading bits) := inferInstanceAs (Decidable (_ ∧ _))

instance (bits : Nat) : Decidable (IsTrailing bits) := inferInstanceAs (Decidable (_ ∧ _))

/-- The character beyond the first plane that a surrogate pair stands for. -/
def paired (leading trailing : Nat) : Char :=
  Char.ofNat (0x10000 + (leading - 0xD800) * 0x400 + (trailing - 0xDC00))

/-- The characters of a literal. A leading unit must be followed at once by an
escaped trailing one, and no trailing unit may stand alone. -/
def join : List Piece → Option (List Char)
  | [] => some []
  | char c :: rest => (join rest).map (c :: ·)
  | unit leading :: unit trailing :: rest =>
    if IsLeading leading then
      if IsTrailing trailing then (join rest).map (paired leading trailing :: ·) else none
    else if IsTrailing leading then none
    else (join (unit trailing :: rest)).map (Char.ofNat leading :: ·)
  | unit bits :: rest =>
    if IsLeading bits ∨ IsTrailing bits then none
    else (join rest).map (Char.ofNat bits :: ·)

end Piece

/-- The character of a one-letter escape. -/
def unescape? : Char → Option Char
  | '"' => some '"'
  | '\\' => some '\\'
  | '/' => some '/'
  | 'b' => some '\x08'
  | 'f' => some '\x0c'
  | 'n' => some '\n'
  | 'r' => some '\r'
  | 't' => some '\t'
  | _ => none

/-! ## Numbers -/

/-- How far a number literal has been read. -/
inductive NumberPart where
  | sign
  | zero
  | whole
  | point
  | fraction
  | exponent
  | exponentSign
  | exponentDigits

namespace NumberPart

/-- The part a literal is in after one more character, if it goes on. -/
def next? : NumberPart → Char → Option NumberPart
  | sign, c => if c = '0' then some zero else if c.isDigit then some whole else none
  | zero, c => afterWhole c
  | whole, c => if c.isDigit then some whole else afterWhole c
  | point, c => if c.isDigit then some fraction else none
  | fraction, c => if c.isDigit then some fraction else afterFraction c
  | exponent, c =>
    if c.isDigit then some exponentDigits
    else if c = '+' ∨ c = '-' then some exponentSign else none
  | exponentSign, c => if c.isDigit then some exponentDigits else none
  | exponentDigits, c => if c.isDigit then some exponentDigits else none
where
  afterFraction (c : Char) : Option NumberPart :=
    if c = 'e' ∨ c = 'E' then some exponent else none
  afterWhole (c : Char) : Option NumberPart :=
    if c = '.' then some point else afterFraction c

/-- A literal may end here. -/
def isComplete : NumberPart → Bool
  | zero | whole | fraction | exponentDigits => true
  | sign | point | exponent | exponentSign => false

end NumberPart

/-! ## Splitting a text -/

/-- What the next character belongs to. Characters and pieces collected so
far are kept last first. -/
inductive Mode where
  | between
  | word (rest : List Char) (token : Token)
  | number (part : NumberPart) (seen : List Char)
  | literal (pieces : List Piece)
  | escape (pieces : List Piece)
  | unit (pieces : List Piece) (bits missing : Nat)

/-- The tokens found so far, last first, and what the next character belongs to. -/
structure Scanner where
  mode : Mode := .between
  found : List Token := []

namespace Scanner

def isBlank (c : Char) : Bool := c = ' ' || c = '\t' || c = '\n' || c = '\r'

/-- A character that stands between tokens or begins one. -/
def start (found : List Token) (c : Char) : Option Scanner :=
  if isBlank c then some ⟨.between, found⟩
  else match c with
  | '[' => some ⟨.between, .openArray :: found⟩
  | ']' => some ⟨.between, .closeArray :: found⟩
  | '\x7b' => some ⟨.between, .openObject :: found⟩
  | '\x7d' => some ⟨.between, .closeObject :: found⟩
  | ',' => some ⟨.between, .comma :: found⟩
  | ':' => some ⟨.between, .colon :: found⟩
  | 'n' => some ⟨.word ['u', 'l', 'l'] .null, found⟩
  | 't' => some ⟨.word ['r', 'u', 'e'] (.bool true), found⟩
  | 'f' => some ⟨.word ['a', 'l', 's', 'e'] (.bool false), found⟩
  | '"' => some ⟨.literal [], found⟩
  | '-' => some ⟨.number .sign [c], found⟩
  | '0' => some ⟨.number .zero [c], found⟩
  | _ => if c.isDigit then some ⟨.number .whole [c], found⟩ else none

/-- The token of a string literal whose pieces are given last first. -/
def stringToken (pieces : List Piece) : Token :=
  .string ((Piece.join pieces.reverse).map String.ofList)

/-- The token of a number literal whose characters are given last first. -/
def numberToken (seen : List Char) : Token := .number (String.ofList seen.reverse)

def step (s : Scanner) (c : Char) : Option Scanner :=
  match s.mode with
  | .between => start s.found c
  | .word rest token =>
    match rest with
    | [] => none
    | [last] => if c = last then some ⟨.between, token :: s.found⟩ else none
    | next :: rest => if c = next then some ⟨.word rest token, s.found⟩ else none
  | .number part seen =>
    match part.next? c with
    | some part => some ⟨.number part (c :: seen), s.found⟩
    | none => if part.isComplete then start (numberToken seen :: s.found) c else none
  | .literal pieces =>
    if c = '"' then some ⟨.between, stringToken pieces :: s.found⟩
    else if c = '\\' then some ⟨.escape pieces, s.found⟩
    else if c.toNat < 0x20 then none
    else some ⟨.literal (.char c :: pieces), s.found⟩
  | .escape pieces =>
    if c = 'u' then some ⟨.unit pieces 0 4, s.found⟩
    else (unescape? c).map fun c => ⟨.literal (.char c :: pieces), s.found⟩
  | .unit pieces bits missing =>
    (Text.Hex.value? c).map fun digit =>
      let bits := bits * 16 + digit
      if missing ≤ 1 then ⟨.literal (.unit bits :: pieces), s.found⟩
      else ⟨.unit pieces bits (missing - 1), s.found⟩

/-- The tokens of a text that may end here. -/
def finish (s : Scanner) : Option (List Token) :=
  match s.mode with
  | .between => some s.found.reverse
  | .number part seen =>
    if part.isComplete then some (numberToken seen :: s.found).reverse else none
  | _ => none

end Scanner

/-- The tokens of a text, in order. -/
def scan (text : List Char) : Option (List Token) :=
  (text.foldlM Scanner.step {}).bind Scanner.finish

end QueryTree.Json
