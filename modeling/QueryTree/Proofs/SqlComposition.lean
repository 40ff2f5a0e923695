import QueryTree.Sql
import Mathlib.Logic.Function.Basic

/-! The text of a node as a composition of texts of its children. Some tags take up
the first child of another tag, some every one, and nothing else of the children
matters. Apart from names, which may drop the word before them, what is taken up
stands in the text as it is, between two texts that do not depend on it. -/

namespace QueryTree

namespace Tag

/-- Of the children with the second tag, nodes with the first take up the first one. -/
def firstTaken : List (Tag × Tag) :=
  [(query, ctes), (query, select), (cte, aliasName), (cte, select), (select, columns),
    (select, fromClause), (column, var), (column, aliasName), (fromClause, table),
    (table, aliasName)]

/-- Of the children with the second tag, nodes with the first take up all. -/
def allTaken : List (Tag × Tag) := [(ctes, cte), (columns, column), (fromClause, join)]

def TakesFirst (parent child : Tag) : Prop := (parent, child) ∈ firstTaken

def TakesAll (parent child : Tag) : Prop := (parent, child) ∈ allTaken

/-- Nodes with the tag have a text. -/
def HasText (tag : Tag) : Prop := tag ∉ [base, list, joinOn, sourceTable]

instance (parent child : Tag) : Decidable (TakesFirst parent child) :=
  inferInstanceAs (Decidable (_ ∈ _))

instance (parent child : Tag) : Decidable (TakesAll parent child) :=
  inferInstanceAs (Decidable (_ ∈ _))

instance (tag : Tag) : Decidable tag.HasText := inferInstanceAs (Decidable (_ ∉ _))

variable {parent child : Tag}

theorem TakesAll.not_takesFirst (h : parent.TakesAll child) : ¬ parent.TakesFirst child := by
  have apart : ∀ pair ∈ allTaken, pair ∉ firstTaken := by decide
  exact apart _ h

theorem TakesAll.hasText (h : parent.TakesAll child) : child.HasText := by
  have texts : ∀ pair ∈ allTaken, pair.2.HasText := by decide
  exact texts _ h

theorem TakesFirst.hasText (h : parent.TakesFirst child) : child.HasText := by
  have texts : ∀ pair ∈ firstTaken, pair.2.HasText := by decide
  exact texts _ h

theorem TakesAll.ne_aliasName (h : parent.TakesAll child) : parent ≠ aliasName := by
  have others : ∀ pair ∈ allTaken, pair.1 ≠ aliasName := by decide
  exact others _ h

theorem TakesFirst.ne_aliasName (h : parent.TakesFirst child) : parent ≠ aliasName := by
  have others : ∀ pair ∈ firstTaken, pair.1 ≠ aliasName := by decide
  exact others _ h

end Tag

namespace Sql

variable {style : Style}

/-- The text of nodes with a tag, empty if the tag has none. -/
def render (style : Style) : Tag → Node → String
  | .query => ofQuery style
  | .ctes => ofCtes style
  | .cte => ofCte style
  | .select => ofSelect style
  | .columns => ofColumns style
  | .column => ofColumn style
  | .var => ofVar
  | .fromClause => ofFrom style
  | .table => ofTable
  | .join => fun _ => style.joinPlaceholder
  | .aliasName => ofAlias
  | .whereClause | .joinOn | .list | .sourceTable | .base => fun _ => ""

/-- The text of a node by itself. -/
def text (style : Style) (n : Node) : String := render style n.tag n

theorem fragment_eq_ok {n : Node} (h : n.tag.HasText) :
    fragment style n = .ok (text style n) := by
  unfold text fragment
  cases tag : n.tag <;> first | rfl | exact absurd (tag ▸ h) (by decide)

theorem document_eq_ok {n : Node} (h : n.tag = .query) :
    document style n = .ok (text style n) := by
  rw [document, if_pos h, text, h]
  rfl

/-! ## Composition -/

/-- Texts of children, by tag. -/
structure Parts where
  first : Tag → Option String
  all : Tag → List String

namespace Parts

def putFirst (parts : Parts) (tag : Tag) (text : String) : Parts :=
  { parts with first := Function.update parts.first tag (some text) }

def putAll (parts : Parts) (tag : Tag) (texts : List String) : Parts :=
  { parts with all := Function.update parts.all tag texts }

@[simp] theorem first_putFirst (parts : Parts) (tag : Tag) (text : String) :
    (parts.putFirst tag text).first tag = some text := Function.update_self ..

@[simp] theorem first_putFirst_of_ne (parts : Parts) {tag other : Tag} (h : tag ≠ other)
    (text : String) : (parts.putFirst tag text).first other = parts.first other :=
  Function.update_of_ne h.symm ..

@[simp] theorem all_putFirst (parts : Parts) (tag : Tag) (text : String) :
    (parts.putFirst tag text).all = parts.all := rfl

@[simp] theorem all_putAll (parts : Parts) (tag : Tag) (texts : List String) :
    (parts.putAll tag texts).all tag = texts := Function.update_self ..

@[simp] theorem all_putAll_of_ne (parts : Parts) {tag other : Tag} (h : tag ≠ other)
    (texts : List String) : (parts.putAll tag texts).all other = parts.all other :=
  Function.update_of_ne h.symm ..

@[simp] theorem first_putAll (parts : Parts) (tag : Tag) (texts : List String) :
    (parts.putAll tag texts).first = parts.first := rfl

end Parts

/-- The text of a node with a tag and a payload, whose children have the given texts. -/
def compose (style : Style) (tag : Tag) (data : Payload) (parts : Parts) : String :=
  match tag with
  | .query => (parts.first .ctes).getD "" ++ (parts.first .select).getD ""
  | .ctes =>
    if parts.all .cte = [] then "" else "WITH " ++ ",".intercalate (parts.all .cte)
  | .cte => (parts.first .aliasName).getD "" ++ "(" ++ (parts.first .select).getD "" ++ ")"
  | .select =>
    "SELECT " ++ (parts.first .columns).getD "*" ++ " FROM " ++ (parts.first .fromClause).getD ""
  | .columns =>
    if parts.all .column = [] then "*" else ",".intercalate (parts.all .column)
  | .column =>
    let name := (parts.first .aliasName).getD ""
    (parts.first .var).getD "" ++
      if name.isEmpty && !style.keepEmptyAlias then "" else " as " ++ name
  | .var =>
    if data.isRaw then data.rawSql.getD "" else (data.picked?.map columnReference).getD ""
  | .fromClause =>
    (parts.first .table).getD "" ++ String.join ((parts.all .join).map (" " ++ ·))
  | .table =>
    (data.picked?.map tableReference).getD "" ++
      (((parts.first .aliasName).filter fun name => !name.isEmpty).map (" as " ++ ·)).getD ""
  | .join => style.joinPlaceholder
  | .aliasName => data.aliasText.getD ""
  | .whereClause | .joinOn | .list | .sourceTable | .base => ""

/-- The texts of the children of a node. -/
def parts (style : Style) (n : Node) : Parts where
  first tag := (n.childOfTag tag).map (text style)
  all tag := (n.childrenOfTag tag).map (text style)

theorem getD_first (style : Style) (tag : Tag) (default : String) (n : Node) :
    ((parts style n).first tag).getD default =
      match n.childOfTag tag with
      | some c => render style tag c
      | none => default := by
  have first : (parts style n).first tag = (n.childOfTag tag).map (text style) := rfl
  rw [first]
  cases found : n.childOfTag tag with
  | none => rfl
  | some c =>
    have same : c.tag = tag := by simpa using List.find?_some found
    subst same
    rfl

theorem ofChild_eq (style : Style) (tag : Tag) (n : Node) :
    ofChild tag (render style tag) n = ((parts style n).first tag).getD "" :=
  (getD_first style tag "" n).symm

theorem map_childrenOfTag_eq (style : Style) (tag : Tag) (n : Node) :
    (n.childrenOfTag tag).map (render style tag) = (parts style n).all tag := by
  refine List.map_congr_left fun c hc => ?_
  have same : c.tag = tag := by simpa using (List.mem_filter.1 hc).2
  subst same
  rfl

/-- The name that a node has is the text of its alias, unless that is empty. -/
theorem alias?_eq (style : Style) (n : Node) :
    n.alias? = ((parts style n).first .aliasName).filter fun name => !name.isEmpty := by
  have first : (parts style n).first .aliasName = (n.childOfTag .aliasName).map (text style) := rfl
  rw [first, Node.alias?]
  cases found : n.childOfTag .aliasName with
  | none => rfl
  | some c =>
    have tag : c.tag = .aliasName := by simpa using List.find?_some found
    have shown : text style c = c.data.aliasText.getD "" := by
      rw [text, tag]
      rfl
    rw [Option.map_some, shown, Option.bind_some, Payload.alias?]
    cases c.data.aliasText with
    | none => rfl
    | some name => rfl

theorem ofColumn_eq (n : Node) :
    ofColumn style n = compose style .column n.data (parts style n) := by
  have var : ofChild .var ofVar n = _ := ofChild_eq style .var n
  have name : ofChild .aliasName ofAlias n = _ := ofChild_eq style .aliasName n
  simp only [ofColumn, compose, var, name]
  split <;> simp [String.append_assoc]

theorem ofTable_eq (style : Style) (n : Node) :
    ofTable n = compose style .table n.data (parts style n) := by
  simp only [ofTable, compose, alias?_eq style]
  generalize ((parts style n).first .aliasName).filter _ = name
  cases n.data.picked? <;> cases name <;> simp [String.append_assoc]

theorem text_eq_compose (n : Node) :
    text style n = compose style n.tag n.data (parts style n) := by
  unfold text
  cases tag : n.tag with
  | query => exact congrArg₂ (· ++ ·) (ofChild_eq style .ctes n) (ofChild_eq style .select n)
  | ctes =>
    simp only [compose, ← map_childrenOfTag_eq]
    show ofCtes style n = _
    unfold ofCtes
    cases n.childrenOfTag .cte <;> simp [render]
  | cte =>
    exact congrArg₂ (fun name select => name ++ "(" ++ select ++ ")")
      (ofChild_eq style .aliasName n) (ofChild_eq style .select n)
  | select =>
    exact congrArg₂ (fun columns clause => "SELECT " ++ columns ++ " FROM " ++ clause)
      (getD_first style .columns "*" n).symm (ofChild_eq style .fromClause n)
  | columns =>
    simp only [compose, ← map_childrenOfTag_eq]
    show ofColumns style n = _
    unfold ofColumns
    cases n.childrenOfTag .column <;> simp [render]
  | column => exact ofColumn_eq n
  | var =>
    show ofVar n = _
    simp only [ofVar, compose]
    cases n.data.picked? <;> rfl
  | fromClause =>
    simp only [compose, ← map_childrenOfTag_eq, List.map_map]
    exact congrArg (· ++ _) (ofChild_eq style .table n)
  | table => exact ofTable_eq style n
  | _ => rfl

/-! ## What a text depends on -/

section Dependence

variable {tag child : Tag} {data : Payload} {old new : Parts}

theorem compose_congr (first : ∀ child, tag.TakesFirst child → new.first child = old.first child)
    (all : ∀ child, tag.TakesAll child → new.all child = old.all child) :
    compose style tag data new = compose style tag data old := by
  cases tag with
  | query => simp only [compose, first .ctes (by decide), first .select (by decide)]
  | ctes => simp only [compose, all .cte (by decide)]
  | cte => simp only [compose, first .aliasName (by decide), first .select (by decide)]
  | select => simp only [compose, first .columns (by decide), first .fromClause (by decide)]
  | columns => simp only [compose, all .column (by decide)]
  | column => simp only [compose, first .var (by decide), first .aliasName (by decide)]
  | fromClause => simp only [compose, first .table (by decide), all .join (by decide)]
  | table => simp only [compose, first .aliasName (by decide)]
  | _ => rfl

/-- What holds another text between two texts that do not depend on it. -/
def Encloses (whole : String → String) : Prop :=
  ∃ before after, ∀ part, whole part = before ++ part ++ after

theorem Encloses.id : Encloses fun part => part := ⟨"", "", fun part => by simp⟩

theorem Encloses.comp {whole inner : String → String} (h : Encloses whole) (h' : Encloses inner) :
    Encloses fun part => whole (inner part) := by
  obtain ⟨before, after, hw⟩ := h
  obtain ⟨before', after', hi⟩ := h'
  exact ⟨before ++ before', after' ++ after, fun part => by simp [hw, hi, String.append_assoc]⟩

theorem Encloses.append_left {whole : String → String} (h : Encloses whole) (front : String) :
    Encloses fun part => front ++ whole part := by
  obtain ⟨before, after, hw⟩ := h
  exact ⟨front ++ before, after, fun part => by simp [hw, String.append_assoc]⟩

theorem encloses_intercalate (before after : List String) :
    Encloses fun part => ",".intercalate (before ++ part :: after) := by
  obtain ⟨back, hback⟩ : ∃ back, ∀ part, ",".intercalate (part :: after) = part ++ back := by
    cases after with
    | nil => exact ⟨"", fun part => by simp⟩
    | cons a after =>
      exact ⟨"," ++ ",".intercalate (a :: after), fun part => by simp [String.append_assoc]⟩
  cases before with
  | nil => exact ⟨"", back, fun part => by simp [hback]⟩
  | cons b before =>
    refine ⟨",".intercalate (b :: before) ++ ",", back, fun part => ?_⟩
    show ",".intercalate (b :: before ++ part :: after) = _
    rw [String.intercalate_append_of_ne_nil (List.cons_ne_nil _ _) (List.cons_ne_nil _ _), hback]
    simp only [String.append_assoc]

theorem encloses_join (before after : List String) :
    Encloses fun part => String.join ((before ++ part :: after).map (" " ++ ·)) := by
  refine ⟨String.join (before.map (" " ++ ·)) ++ " ", String.join (after.map (" " ++ ·)),
    fun part => ?_⟩
  simp [String.join_append, String.join_cons, String.append_assoc]

/-- A part that is taken up once is enclosed, unless it is a name. -/
theorem encloses_putFirst (style : Style) (data : Payload) (parts : Parts)
    (takes : tag.TakesFirst child) (notName : child ≠ .aliasName) :
    Encloses fun part => compose style tag data (parts.putFirst child part) := by
  simp only [Tag.TakesFirst, Tag.firstTaken, List.mem_cons, Prod.mk.injEq, List.not_mem_nil,
    or_false] at takes
  rcases takes with ⟨rfl, rfl⟩ | ⟨rfl, rfl⟩ | ⟨rfl, rfl⟩ | ⟨rfl, rfl⟩ | ⟨rfl, rfl⟩ | ⟨rfl, rfl⟩ |
    ⟨rfl, rfl⟩ | ⟨rfl, rfl⟩ | ⟨rfl, rfl⟩ | ⟨rfl, rfl⟩
  · exact ⟨"", compose style .query data (parts.putFirst .ctes ""),
      fun part => by simp [compose]⟩
  · exact ⟨(parts.first .ctes).getD "", "", fun part => by simp [compose]⟩
  · exact absurd rfl notName
  · exact ⟨(parts.first .aliasName).getD "" ++ "(", ")", fun part => by simp [compose]⟩
  · exact ⟨"SELECT ", " FROM " ++ (parts.first .fromClause).getD "",
      fun part => by simp [compose, String.append_assoc]⟩
  · exact ⟨"SELECT " ++ (parts.first .columns).getD "*" ++ " FROM ", "",
      fun part => by simp [compose]⟩
  · exact ⟨"", compose style .column data (parts.putFirst .var ""),
      fun part => by simp [compose]⟩
  · exact absurd rfl notName
  · exact ⟨"", compose style .fromClause data (parts.putFirst .table ""),
      fun part => by simp [compose]⟩
  · exact absurd rfl notName

/-- Each part that is taken up in a list is enclosed. -/
theorem encloses_putAll (style : Style) (data : Payload) (parts : Parts)
    (takes : tag.TakesAll child) (before after : List String) :
    Encloses fun part => compose style tag data (parts.putAll child (before ++ part :: after)) := by
  simp only [Tag.TakesAll, Tag.allTaken, List.mem_cons, Prod.mk.injEq, List.not_mem_nil,
    or_false] at takes
  rcases takes with ⟨rfl, rfl⟩ | ⟨rfl, rfl⟩ | ⟨rfl, rfl⟩
  · simpa [compose] using (encloses_intercalate before after).append_left "WITH "
  · simpa [compose] using encloses_intercalate before after
  · simpa [compose] using
      (encloses_join before after).append_left ((parts.first .table).getD "")

end Dependence

/-! ## One child exchanged -/

section Exchange

variable {n c c' : Node} {before after : List Node}

/-- The text of a node takes up a child, given the siblings before it. -/
def Takes (n : Node) (before : List Node) (c : Node) : Prop :=
  n.tag.TakesAll c.tag ∨ n.tag.TakesFirst c.tag ∧ ∀ b ∈ before, b.tag ≠ c.tag

instance (n : Node) (before : List Node) (c : Node) : Decidable (Takes n before c) :=
  inferInstanceAs (Decidable (_ ∨ _))

theorem Takes.hasText (h : Takes n before c) : c.tag.HasText :=
  h.elim Tag.TakesAll.hasText fun first => first.1.hasText

theorem Takes.ne_aliasName (h : Takes n before c) : n.tag ≠ .aliasName :=
  h.elim Tag.TakesAll.ne_aliasName fun first => first.1.ne_aliasName

theorem parts_first (hs : n.children = before ++ c :: after) (tag : Tag) :
    (parts style n).first tag = ((before.find? (·.tag = tag)).map (text style)).or
      (if c.tag = tag then some (text style c)
        else (after.find? (·.tag = tag)).map (text style)) := by
  show (n.childOfTag tag).map (text style) = _
  rw [Node.childOfTag, hs, List.find?_append, List.find?_cons, Option.map_or]
  by_cases h : c.tag = tag <;> simp [h]

theorem parts_all (hs : n.children = before ++ c :: after) (tag : Tag) :
    (parts style n).all tag = (before.filter (·.tag = tag)).map (text style) ++
      ((if c.tag = tag then [text style c] else []) ++
        (after.filter (·.tag = tag)).map (text style)) := by
  show (n.childrenOfTag tag).map (text style) = _
  rw [Node.childrenOfTag, hs, List.filter_append, List.filter_cons]
  by_cases h : c.tag = tag <;> simp [h]

/-- A child counts only among those of its tag. -/
theorem parts_of_ne (hs : n.children = before ++ c :: after) (tag : c'.tag = c.tag) {child : Tag}
    (other : c.tag ≠ child) :
    (parts style (n.withChildren (before ++ c' :: after))).first child =
        (parts style n).first child ∧
      (parts style (n.withChildren (before ++ c' :: after))).all child =
        (parts style n).all child := by
  rw [parts_first hs, parts_first (n.children_withChildren _), parts_all hs,
    parts_all (n.children_withChildren _), tag]
  simp only [if_neg other, and_self]

/-- Children of one tag and text are the same to the text of their parent. -/
theorem text_congr (hs : n.children = before ++ c :: after) (tag : c'.tag = c.tag)
    (same : text style c' = text style c) :
    text style (n.withChildren (before ++ c' :: after)) = text style n := by
  rw [text_eq_compose, text_eq_compose n]
  refine compose_congr (fun child _ => ?_) fun child _ => ?_
  · rw [parts_first hs, parts_first (n.children_withChildren _), tag, same]
  · rw [parts_all hs, parts_all (n.children_withChildren _), tag, same]

/-- A child that is not taken up does not matter. -/
theorem text_of_not_takes (hs : n.children = before ++ c :: after) (hidden : ¬ Takes n before c)
    (tag : c'.tag = c.tag) :
    text style (n.withChildren (before ++ c' :: after)) = text style n := by
  rw [text_eq_compose, text_eq_compose n]
  refine compose_congr (fun child takes => ?_) fun child takes => ?_
  · by_cases other : c.tag = child
    · -- an earlier sibling of that tag is the one that is taken up
      subst other
      have earlier : ∃ b ∈ before, b.tag = c.tag := by
        by_contra none
        exact hidden (.inr ⟨takes, fun b hb same => none ⟨b, hb, same⟩⟩)
      obtain ⟨b, hb⟩ : ∃ b, before.find? (·.tag = c.tag) = some b := by
        simpa [← Option.isSome_iff_exists] using earlier
      rw [parts_first hs, parts_first (n.children_withChildren _), hb]
      rfl
    · exact (parts_of_ne hs tag other).1
  · have other : c.tag ≠ child := fun h => hidden (.inl (h ▸ takes))
    exact (parts_of_ne hs tag other).2

theorem text_of_takesAll (hs : n.children = before ++ c :: after) (takes : n.tag.TakesAll c.tag)
    (tag : c'.tag = c.tag) :
    text style (n.withChildren (before ++ c' :: after)) =
      compose style n.tag n.data ((parts style n).putAll c.tag
        ((before.filter (·.tag = c.tag)).map (text style) ++ text style c' ::
          (after.filter (·.tag = c.tag)).map (text style))) := by
  rw [text_eq_compose]
  refine compose_congr (fun child single => ?_) fun child _ => ?_
  · have other : c.tag ≠ child := fun h => takes.not_takesFirst (h ▸ single)
    exact (parts_of_ne hs tag other).1
  · by_cases other : c.tag = child
    · subst other
      rw [Parts.all_putAll, parts_all (n.children_withChildren _), if_pos tag]
      rfl
    · rw [Parts.all_putAll_of_ne _ other]
      exact (parts_of_ne hs tag other).2

theorem text_of_takesFirst (hs : n.children = before ++ c :: after)
    (takes : n.tag.TakesFirst c.tag) (first : ∀ b ∈ before, b.tag ≠ c.tag)
    (tag : c'.tag = c.tag) :
    text style (n.withChildren (before ++ c' :: after)) =
      compose style n.tag n.data ((parts style n).putFirst c.tag (text style c')) := by
  rw [text_eq_compose]
  refine compose_congr (fun child _ => ?_) fun child list => ?_
  · by_cases other : c.tag = child
    · subst other
      have none : before.find? (·.tag = c.tag) = none := by simpa using first
      rw [Parts.first_putFirst, parts_first (n.children_withChildren _), if_pos tag, none]
      rfl
    · rw [Parts.first_putFirst_of_ne _ other]
      exact (parts_of_ne hs tag other).1
  · have other : c.tag ≠ child := fun h => list.not_takesFirst (h ▸ takes)
    exact (parts_of_ne hs tag other).2

/-- A child that is taken up is enclosed, unless it is a name. -/
theorem text_of_takes (hs : n.children = before ++ c :: after) (takes : Takes n before c)
    (notName : c.tag ≠ .aliasName) :
    ∃ whole, Encloses whole ∧ ∀ c' : Node, c'.tag = c.tag →
      text style (n.withChildren (before ++ c' :: after)) = whole (text style c') := by
  rcases takes with takes | ⟨takes, first⟩
  · exact ⟨_, encloses_putAll style n.data (parts style n) takes _ _,
      fun c' tag => text_of_takesAll hs takes tag⟩
  · exact ⟨_, encloses_putFirst style n.data (parts style n) takes notName,
      fun c' tag => text_of_takesFirst hs takes first tag⟩

end Exchange

end Sql

end QueryTree
