import QueryTree.Json.Printer
import QueryTree.Json.Reader
import Mathlib.Data.List.Forall2

/-! Reading back the text of a value. Tokens stand between the two: both layouts write the
tokens of the value with nothing but blanks in between, the scanner finds just these,
and putting them together gives the value. All of it is stated for values without
numbers, of which records are made; a number keeps a literal that could be anything. -/

namespace QueryTree.Json

/-- The input takes the machine from one state to another without being refused. -/
def Passes {σ α : Type} (step : σ → α → Option σ) (s : σ) (input : List α) (t : σ) : Prop :=
  input.foldlM step s = some t

namespace Passes

variable {σ α : Type} {step : σ → α → Option σ} {s t u : σ}

theorem nil : Passes step s [] s := rfl

theorem cons {x : α} {xs : List α} (first : step s x = some t) (rest : Passes step t xs u) :
    Passes step s (x :: xs) u := by
  rw [Passes, List.foldlM_cons, first]
  exact rest

theorem append {xs ys : List α} (first : Passes step s xs t) (rest : Passes step t ys u) :
    Passes step s (xs ++ ys) u := by
  rw [Passes, List.foldlM_append, first]
  exact rest

/-- The state before an input matters for its first step only. -/
theorem congr_start {x : α} {xs : List α} (same : step s x = step t x)
    (h : Passes step t (x :: xs) u) : Passes step s (x :: xs) u := by
  rw [Passes, List.foldlM_cons] at h ⊢
  rw [same, h]

end Passes

/-- The items of an array and the values in an object. -/
def parts : Json → List Json
  | array items => items
  | object members => members.map Prod.snd
  | _ => []

/-- What holds for a value whenever it holds for its parts holds for all values. -/
theorem parts_induction {P : Json → Prop} (step : ∀ value, (∀ part ∈ value.parts, P part) → P value)
    (value : Json) : P value := by
  refine step value fun part h => ?_
  exact parts_induction step part
termination_by sizeOf value
decreasing_by
  cases value with
  | array items =>
    have := List.sizeOf_lt_of_mem (show part ∈ items from h)
    simp only [array.sizeOf_spec]
    omega
  | object members =>
    obtain ⟨⟨name, _⟩, hmember, rfl⟩ := List.mem_map.1 h
    have := List.sizeOf_lt_of_mem hmember
    simp only [object.sizeOf_spec, Prod.mk.sizeOf_spec] at this ⊢
    omega
  | _ => cases h

/-! ## Values without numbers -/

/-- No number stands anywhere in the value. -/
inductive NumberFree : Json → Prop where
  | mk {value : Json} (own : ∀ literal, value ≠ number literal)
    (parts : ∀ part ∈ value.parts, NumberFree part) : NumberFree value

def Token.IsNumber : Token → Prop
  | number _ => True
  | _ => False

theorem tokensOfItems_cons (item : Json) (items : List Json) :
    tokensOfItems (item :: items) =
      tokens item ++ items.flatMap fun other => .comma :: tokens other := by
  induction items generalizing item with
  | nil => simp [tokensOfItems]
  | cons next items ih => rw [tokensOfItems, ih] <;> simp

theorem tokensOfMembers_cons (name : String) (value : Json) (members : List (String × Json)) :
    tokensOfMembers ((name, value) :: members) =
      .string (some name) :: .colon :: tokens value ++ members.flatMap fun other =>
        .comma :: .string (some other.1) :: .colon :: tokens other.2 := by
  induction members generalizing name value with
  | nil => simp [tokensOfMembers]
  | cons next members ih =>
    obtain ⟨name', value'⟩ := next
    rw [tokensOfMembers, ih] <;> simp

theorem mem_tokensOfItems {token : Token} {items : List Json} (h : token ∈ tokensOfItems items) :
    token = .comma ∨ ∃ item ∈ items, token ∈ tokens item := by
  cases items with
  | nil => cases h
  | cons item items =>
    rw [tokensOfItems_cons] at h
    simp only [List.mem_append, List.mem_flatMap, List.mem_cons] at h
    rcases h with h | ⟨other, hother, rfl | h⟩
    · exact .inr ⟨item, List.mem_cons_self, h⟩
    · exact .inl rfl
    · exact .inr ⟨other, List.mem_cons_of_mem _ hother, h⟩

theorem mem_tokensOfMembers {token : Token} {members : List (String × Json)}
    (h : token ∈ tokensOfMembers members) :
    token = .comma ∨ token = .colon ∨
      ∃ member ∈ members, token = .string (some member.1) ∨ token ∈ tokens member.2 := by
  cases members with
  | nil => cases h
  | cons member members =>
    obtain ⟨name, value⟩ := member
    rw [tokensOfMembers_cons] at h
    simp only [List.cons_append, List.mem_cons, List.mem_append, List.mem_flatMap] at h
    rcases h with rfl | rfl | h | ⟨other, hother, rfl | rfl | rfl | h⟩
    · exact .inr (.inr ⟨_, List.mem_cons_self, .inl rfl⟩)
    · exact .inr (.inl rfl)
    · exact .inr (.inr ⟨_, List.mem_cons_self, .inr h⟩)
    · exact .inl rfl
    · exact .inr (.inr ⟨other, List.mem_cons_of_mem _ hother, .inl rfl⟩)
    · exact .inr (.inl rfl)
    · exact .inr (.inr ⟨other, List.mem_cons_of_mem _ hother, .inr h⟩)

theorem NumberFree.not_isNumber {value : Json} (h : NumberFree value) :
    ∀ token ∈ tokens value, ¬ token.IsNumber := by
  induction h with
  | @mk value own _ ih =>
    cases value with
    | number literal => exact absurd rfl (own literal)
    | null | bool | string | garbled => simp [tokens, Token.IsNumber]
    | array items =>
      simp only [tokens, List.cons_append, List.mem_cons, List.mem_append, List.not_mem_nil,
        or_false]
      rintro token (rfl | h | rfl)
      · exact id
      · rcases mem_tokensOfItems h with rfl | ⟨item, hitem, h⟩
        · exact id
        · exact ih item hitem token h
      · exact id
    | object members =>
      simp only [tokens, List.cons_append, List.mem_cons, List.mem_append, List.not_mem_nil,
        or_false]
      rintro token (rfl | h | rfl)
      · exact id
      · rcases mem_tokensOfMembers h with rfl | rfl | ⟨member, hmember, rfl | h⟩
        · exact id
        · exact id
        · exact id
        · exact ih member.2 (List.mem_map_of_mem hmember) token h
      · exact id

/-! ## From tokens to the value -/

namespace Assembly

/-- A value does not begin with a closing bracket. -/
theorem tokens_eq_cons (value : Json) :
    ∃ first rest, tokens value = first :: rest ∧ first ≠ .closeArray := by
  cases value <;> exact ⟨_, _, rfl, nofun⟩

theorem step_firstItem (stack : List Frame) {token : Token} (h : token ≠ .closeArray) :
    step (firstItem stack) token = step (value (.array [] :: stack)) token := by
  cases token <;> first | rfl | exact absurd rfl h

/-- The first item may stand where the array could also be closed. -/
theorem passes_firstItem {item : Json} {rest : List Token} {stack : List Frame} {t : Assembly}
    (h : Passes step (value (.array [] :: stack)) (tokens item ++ rest) t) :
    Passes step (firstItem stack) (tokens item ++ rest) t := by
  obtain ⟨first, others, split, notClosing⟩ := tokens_eq_cons item
  rw [split] at h ⊢
  exact h.congr_start (step_firstItem stack notClosing)

/-- Items that follow a complete one, up to the end of the array. -/
theorem passes_items {items : List Json} {stack : List Frame}
    (h : ∀ item ∈ items, ∀ stack, Passes step (value stack) (tokens item) (after item stack))
    (item : Json) (before : List Json) :
    Passes step (after item (.array before :: stack))
      (items.flatMap (fun other => .comma :: tokens other) ++ [.closeArray])
      (after (.array (before.reverse ++ item :: items)) stack) := by
  -- Each comma moves the item that is complete into the frame around the next one.
  induction items generalizing item before with
  | nil =>
    refine .cons ?_ .nil
    simp [step]
  | cons next items ih =>
    obtain ⟨first, others⟩ := List.forall_mem_cons.1 h
    rw [List.flatMap_cons, List.cons_append, List.cons_append, List.append_assoc]
    refine .cons rfl ((first _).append ?_)
    simpa using ih others next (item :: before)

/-- A member of an object that is still open. -/
def named (member : String × Json) : Option String × Json := (some member.1, member.2)

theorem closeMembers_named (members : List (String × Json)) :
    closeMembers (members.map named).reverse = .object members := by
  have : (members.map named).mapM (fun member => member.1.map (·, member.2)) = some members := by
    induction members with
    | nil => rfl
    | cons member members ih => rw [List.map_cons, List.mapM_cons, ih]; rfl
  rw [closeMembers, List.reverse_reverse, this]

/-- Members that follow a complete one, up to the end of the object. -/
theorem passes_members {members : List (String × Json)} {stack : List Frame}
    (h : ∀ member ∈ members, ∀ stack,
      Passes step (value stack) (tokens member.2) (after member.2 stack))
    (member : String × Json) (before : List (String × Json)) :
    Passes step (after member.2 (.object (before.map named).reverse (some member.1) :: stack))
      (members.flatMap (fun other =>
        .comma :: .string (some other.1) :: .colon :: tokens other.2) ++ [.closeObject])
      (after (.object (before ++ member :: members)) stack) := by
  induction members generalizing member before with
  | nil =>
    refine .cons ?_ .nil
    rw [← closeMembers_named]
    simp [step, named]
  | cons next members ih =>
    obtain ⟨first, others⟩ := List.forall_mem_cons.1 h
    simp only [List.flatMap_cons, List.cons_append, List.append_assoc]
    refine .cons rfl (.cons rfl (.cons rfl ((first _).append ?_)))
    simpa [named] using ih others next (before ++ [member])

theorem passes_tokens (value : Json) (stack : List Frame) :
    Passes step (.value stack) (tokens value) (after value stack) := by
  induction value using parts_induction generalizing stack with
  | step value ih =>
    match value with
    | .null | .bool _ | .number _ | .string _ | .garbled => exact .cons rfl .nil
    | .array [] | .object [] => exact .cons rfl (.cons rfl .nil)
    | .array (item :: items) =>
      obtain ⟨first, others⟩ := List.forall_mem_cons.1 ih
      rw [tokens, tokensOfItems_cons, List.cons_append, List.append_assoc]
      refine .cons rfl (passes_firstItem ((first _).append ?_))
      exact passes_items others item []
    | .object (member :: members) =>
      obtain ⟨first, others⟩ := List.forall_mem_cons.1 ih
      rw [tokens, tokensOfMembers_cons]
      simp only [List.cons_append, List.append_assoc]
      refine .cons rfl (.cons rfl (.cons rfl ((first _).append ?_)))
      exact passes_members (List.forall_mem_map.1 others) member []

end Assembly

theorem ofTokens?_tokens (value : Json) : ofTokens? (tokens value) = some value := by
  rw [ofTokens?, Assembly.passes_tokens value []]
  rfl

/-! ## From text to tokens -/

/-- Pieces of a literal that stand for themselves or for a character of the first plane
that is not half of a pair. -/
inductive Piece.Spells : Piece → Char → Prop where
  | char (c : Char) : Spells (.char c) c
  | unit {c : Char} (h : c.toNat < 0xD800) : Spells (.unit c.toNat) c

theorem Piece.join_of_spells {pieces : List Piece} {cs : List Char}
    (h : List.Forall₂ Spells pieces cs) : join pieces = some cs := by
  induction h with
  | nil => rfl
  | @cons piece c pieces cs first rest ih =>
    cases first with
    | char => rw [join, ih, Option.map_some]
    | unit small =>
      have alone : ¬ (IsLeading c.toNat ∨ IsTrailing c.toNat) := by
        simp only [IsLeading, IsTrailing]
        omega
      rw [not_or] at alone
      -- Whether two units make a pair is decided by the first one alone.
      cases rest with
      | nil => simp [join, alone]
      | cons next rest =>
        cases next with
        | char => rw [join, ih] <;> simp [alone]
        | unit => simp [join, ih, alone]

namespace Scanner

variable {pieces : List Piece} {found : List Token}

/-- Four digits give back the unit that they were made of. -/
theorem passes_unit {bits : Nat} (h : bits < 0x10000) :
    Passes step ⟨.unit pieces 0 4, found⟩ (Text.Hex.fixed 4 bits)
      ⟨.literal (.unit bits :: pieces), found⟩ := by
  have digits : (((bits / 16 / 16 / 16 % 16) * 16 + bits / 16 / 16 % 16) * 16
      + bits / 16 % 16) * 16 + bits % 16 = bits := by omega
  simp [Passes, Text.Hex.fixed, step, Text.Hex.value?_digit, digits]

theorem step_shown {c : Char} (notQuote : c ≠ '"') (notBackslash : c ≠ '\\')
    (shown : ¬ c.toNat < 0x20) :
    step ⟨.literal pieces, found⟩ c = some ⟨.literal (.char c :: pieces), found⟩ := by
  simp [step, notQuote, notBackslash, shown]

theorem passes_escape (c : Char) (pieces : List Piece) (found : List Token) :
    ∃ piece, Piece.Spells piece c ∧
      Passes step ⟨.literal pieces, found⟩ (escape c) ⟨.literal (piece :: pieces), found⟩ := by
  unfold escape
  split
  case h_8 notQuote notBackslash _ _ _ _ _ =>
    split
    next control =>
      refine ⟨.unit c.toNat, .unit (by omega), ?_⟩
      exact .cons rfl (.cons rfl (passes_unit (by omega)))
    next shown =>
      exact ⟨.char c, .char c, .cons (step_shown notQuote notBackslash shown) .nil⟩
  all_goals exact ⟨_, .char _, rfl⟩

theorem passes_escapes (cs : List Char) (pieces : List Piece) (found : List Token) :
    ∃ spelled, List.Forall₂ Piece.Spells spelled cs ∧
      Passes step ⟨.literal pieces, found⟩ (cs.flatMap escape)
        ⟨.literal (spelled.reverse ++ pieces), found⟩ := by
  induction cs generalizing pieces with
  | nil => exact ⟨[], .nil, .nil⟩
  | cons c cs ih =>
    obtain ⟨piece, spells, first⟩ := passes_escape c pieces found
    obtain ⟨spelled, spell, rest⟩ := ih (piece :: pieces)
    refine ⟨piece :: spelled, .cons spells spell, ?_⟩
    rw [List.flatMap_cons]
    simpa using first.append rest

theorem step_quote : step ⟨.literal pieces, found⟩ '"' =
    some ⟨.between, stringToken pieces :: found⟩ := rfl

theorem passes_quote (text : String) :
    Passes step ⟨.between, found⟩ (quote text) ⟨.between, .string (some text) :: found⟩ := by
  obtain ⟨spelled, spell, inside⟩ := passes_escapes text.toList [] found
  refine .cons rfl (inside.append (.cons ?_ .nil))
  rw [step_quote, stringToken, List.append_nil, List.reverse_reverse, Piece.join_of_spells spell,
    Option.map_some, String.ofList_toList]

theorem passes_text {token : Token} (h : ¬ token.IsNumber) :
    Passes step ⟨.between, found⟩ token.text ⟨.between, token :: found⟩ := by
  cases token with
  | number literal => exact absurd trivial h
  | bool value => cases value <;> rfl
  | string text =>
    cases text with
    | none => rfl
    | some text => exact passes_quote text
  | _ => rfl

theorem step_blank {c : Char} (h : isBlank c) :
    step ⟨.between, found⟩ c = some ⟨.between, found⟩ := by
  simp [step, start, h]

end Scanner

/-- The characters are the texts of the tokens, in order, with blanks at will before, between
and after them. -/
inductive Writes : List Char → List Token → Prop where
  | nil : Writes [] []
  | blank {c : Char} {cs : List Char} {ts : List Token} (h : Scanner.isBlank c)
    (rest : Writes cs ts) : Writes (c :: cs) ts
  | token {cs : List Char} {ts : List Token} (t : Token) (rest : Writes cs ts) :
    Writes (t.text ++ cs) (t :: ts)

namespace Writes

theorem append {cs cs' : List Char} {ts ts' : List Token} (h : Writes cs ts)
    (h' : Writes cs' ts') : Writes (cs ++ cs') (ts ++ ts') := by
  induction h with
  | nil => exact h'
  | blank hc _ ih => exact .blank hc ih
  | token t _ ih =>
    rw [List.append_assoc]
    exact .token t ih

theorem single (t : Token) : Writes t.text [t] := by
  simpa using token t nil

theorem flatMap_text (ts : List Token) : Writes (ts.flatMap Token.text) ts := by
  induction ts with
  | nil => exact .nil
  | cons t ts ih => exact .token t ih

theorem passes {cs : List Char} {ts : List Token} (h : Writes cs ts)
    (numberFree : ∀ t ∈ ts, ¬ t.IsNumber) (found : List Token) :
    Passes Scanner.step ⟨.between, found⟩ cs ⟨.between, ts.reverse ++ found⟩ := by
  induction h generalizing found with
  | nil => exact .nil
  | blank hc _ ih => exact .cons (Scanner.step_blank hc) (ih numberFree found)
  | token t _ ih =>
    obtain ⟨first, others⟩ := List.forall_mem_cons.1 numberFree
    rw [List.reverse_cons, List.append_assoc]
    exact (Scanner.passes_text first).append (ih others (t :: found))

theorem scan {cs : List Char} {ts : List Token} (h : Writes cs ts)
    (numberFree : ∀ t ∈ ts, ¬ t.IsNumber) : scan cs = some ts := by
  rw [Json.scan, h.passes numberFree []]
  simp [Scanner.finish]

/-- Whatever the layout, a value without numbers is read back. -/
theorem parse {cs : List Char} {value : Json} (h : Writes cs (tokens value))
    (numberFree : value.NumberFree) : parse (String.ofList cs) = some value := by
  rw [Json.parse, String.toList_ofList, h.scan numberFree.not_isNumber, Option.bind_some,
    ofTokens?_tokens]

end Writes

/-! ## The two layouts -/

theorem indentedItems_cons (level : Nat) (item : Json) (items : List Json) :
    indentedItems level (item :: items) = lineBreak level ++ indented level item
      ++ items.flatMap fun other => ',' :: lineBreak level ++ indented level other := by
  induction items generalizing item with
  | nil => simp [indentedItems]
  | cons next items ih => rw [indentedItems, ih] <;> simp

theorem indentedMembers_cons (level : Nat) (name : String) (value : Json)
    (members : List (String × Json)) :
    indentedMembers level ((name, value) :: members) =
      lineBreak level ++ quote name ++ ':' :: ' ' :: indented level value
      ++ members.flatMap fun other =>
        ',' :: lineBreak level ++ quote other.1 ++ ':' :: ' ' :: indented level other.2 := by
  induction members generalizing name value with
  | nil => simp [indentedMembers]
  | cons next members ih =>
    obtain ⟨name', value'⟩ := next
    rw [indentedMembers, ih] <;> simp

namespace Writes

variable {cs cs' : List Char} {ts ts' : List Token}

/-- A token of a single character, such as a bracket. -/
theorem mark {c : Char} {t : Token} (ht : t.text = [c]) (rest : Writes cs ts) :
    Writes (c :: cs) (t :: ts) := by
  simpa [ht] using token t rest

theorem space (rest : Writes cs ts) : Writes (' ' :: cs) ts := .blank (by decide) rest

theorem lineBreak (level : Nat) (rest : Writes cs ts) : Writes (lineBreak level ++ cs) ts := by
  have spaces : ∀ n, Writes (List.replicate n ' ' ++ cs) ts := by
    intro n
    induction n with
    | zero => exact rest
    | succ n ih => exact ih.space
  exact .blank (by decide) (spaces _)

theorem flatMap {α : Type} {xs : List α} {text : α → List Char} {tokens : α → List Token}
    (h : ∀ x ∈ xs, Writes (text x) (tokens x)) : Writes (xs.flatMap text) (xs.flatMap tokens) := by
  induction xs with
  | nil => exact nil
  | cons x xs ih =>
    obtain ⟨first, others⟩ := List.forall_mem_cons.1 h
    exact first.append (ih others)

end Writes

/-- A member on its own line. -/
theorem writes_member {level : Nat} {value : Json} (name : String)
    (h : Writes (indented level value) (tokens value)) :
    Writes (lineBreak level ++ quote name ++ ':' :: ' ' :: indented level value)
      (.string (some name) :: .colon :: tokens value) := by
  rw [List.append_assoc]
  exact (Writes.token (.string (some name)) (.mark rfl h.space)).lineBreak level

theorem writes_indented (level : Nat) (value : Json) :
    Writes (indented level value) (tokens value) := by
  induction value using parts_induction generalizing level with
  | step value ih =>
    match value with
    | .null => exact .single .null
    | .bool flag => exact .single (.bool flag)
    | .number literal => exact .single (.number literal)
    | .string text => exact .single (.string (some text))
    | .garbled => exact .single (.string none)
    | .array [] | .object [] => exact .mark rfl (.mark rfl .nil)
    | .array (item :: items) =>
      obtain ⟨first, others⟩ := List.forall_mem_cons.1 ih
      have rest := Writes.flatMap fun other h => Writes.mark (t := .comma) rfl
        ((others other h (level + 1)).lineBreak (level + 1))
      have inside := ((first (level + 1)).lineBreak (level + 1)).append rest
      have closing := Writes.lineBreak level (.mark (t := .closeArray) rfl .nil)
      rw [tokens, tokensOfItems_cons, indented, indentedItems_cons]
      simpa using Writes.mark (t := .openArray) rfl (inside.append closing)
    | .object (member :: members) =>
      obtain ⟨first, others⟩ := List.forall_mem_cons.1 ih
      have rest := Writes.flatMap fun other h => Writes.mark (t := .comma) rfl
        (writes_member other.1 (List.forall_mem_map.1 others other h (level + 1)))
      have inside := (writes_member member.1 (first (level + 1))).append rest
      have closing := Writes.lineBreak level (.mark (t := .closeObject) rfl .nil)
      rw [tokens, tokensOfMembers_cons, indented, indentedMembers_cons]
      simpa using Writes.mark (t := .openObject) rfl (inside.append closing)

/-- The indented text of a value without numbers is read as the value. -/
theorem parse_pretty {value : Json} (h : value.NumberFree) : parse value.pretty = some value :=
  (writes_indented 0 value).parse h

/-- So is the compact text. -/
theorem parse_compact {value : Json} (h : value.NumberFree) : parse value.compact = some value :=
  (Writes.flatMap_text (tokens value)).parse h

end QueryTree.Json
