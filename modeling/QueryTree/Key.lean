import QueryTree.Text

/-! Keys: the stable identity of a node or of an entry of a catalog. A table
or a column that is picked in the tree is stored as the key of the entry, or of
the node, that offers it.

Fresh keys come from a supply. Sequential keys are numbered by a counter that all
who draw from one supply share. Random keys are identifiers of version 4 made of
the next number of a stream that the supply is given; they leave the counter
alone. -/

namespace QueryTree

structure Key where
  text : String
deriving DecidableEq, Inhabited

/-- Where fresh keys come from: random identifiers, or a running number. -/
inductive KeyKind where
  | uuid
  | sequential
deriving DecidableEq, Inhabited

namespace Key

instance : ToString Key := ⟨text⟩

/-- The empty key names nothing. -/
def isBlank (key : Key) : Bool := key.text.isEmpty

/-- Keys in the order of their texts, character by character. -/
def sort (keys : List Key) : List Key := keys.mergeSort fun a b => decide (a.text ≤ b.text)

end Key

namespace KeyKind

def all : List KeyKind := [uuid, sequential]

def text : KeyKind → String
  | uuid => "Uuid"
  | sequential => "Sequential"

end KeyKind

/-! ## Fresh keys -/

/-- What is still to come: the number of sequential keys and of random keys
handed out so far, and the stream that random keys are made of. -/
structure Supply where
  /-- It starts at zero and goes up by one a key. No program draws the `2 ^ 64` keys after
  which a machine word would start over, so the counter needs no bound. -/
  numbered : Nat := 0
  drawn : Nat := 0
  random : Nat → Nat

/-- A computation that may draw fresh keys. -/
abbrev Fresh := StateM Supply

namespace Key

/-- The `n`-th sequential key. -/
def sequential (n : Nat) : Key := ⟨"n" ++ toString n⟩

/-- The identifier of version 4 that is made of the last 122 bits of `bits`:
48 bits, the version, 12 bits, the variant, and 62 bits. -/
def uuid (bits : Nat) : Key :=
  let high := Text.Hex.fixed 12 (bits >>> 74)
  let middle := Text.Hex.fixed 3 (bits >>> 62)
  let low := Text.Hex.fixed 16 ((1 <<< 63) + bits % (1 <<< 62))
  let groups := [high.take 8, high.drop 8, '4' :: middle, low.take 4, low.drop 4]
  ⟨String.ofList (['-'].intercalate groups)⟩

/-- Draws the next key. -/
def fresh : KeyKind → Fresh Key
  | .sequential => fun supply =>
    (sequential (supply.numbered + 1), { supply with numbered := supply.numbered + 1 })
  | .uuid => fun supply =>
    (uuid (supply.random supply.drawn), { supply with drawn := supply.drawn + 1 })

/-- Draws a number of keys, in order. -/
def freshList (kind : KeyKind) : Nat → Fresh (List Key)
  | 0 => pure []
  | count + 1 => do
    let first ← fresh kind
    let others ← freshList kind count
    return first :: others

end Key

end QueryTree
