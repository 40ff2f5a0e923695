import QueryTree.Proofs.Replacement
import QueryTree.Proofs.ScopePasses
import QueryTree.Proofs.SqlComposition

/-! What a text shows of its tree. The skeleton of a tree is the tree without what never
gets into the text: keys, children that no text takes up, and payload that has no
meaning to the text of its node. It has the same text itself, so trees with one skeleton
have one text. -/

namespace QueryTree

/-- The part of a payload that the text of nodes with a tag is made of. -/
def Payload.shown (data : Payload) : Tag → Payload
  | .aliasName => { aliasText := some (data.aliasText.getD "") }
  | .var =>
    if data.isRaw then { isRaw := true, rawSql := some (data.rawSql.getD "") }
    else { selected := data.picked? }
  | .table => { selected := data.picked? }
  | _ => {}

namespace Sql

/-! ## Skeletons -/

/-- What a missing child is as good as: all columns, and an alias without text. -/
def standIn : Tag → List Node
  | .columns => [{ key := ⟨""⟩, tag := .columns, kids := some [] }]
  | .aliasName =>
    [{ key := ⟨""⟩, tag := .aliasName, data := { aliasText := some "" }, kids := some [] }]
  | _ => []

/-- The children with the second tag that the text of a node with the first one takes up. -/
def takenUp (parent child : Tag) (children : List Node) : List Node :=
  if parent.TakesAll child then children.filter (·.tag = child)
  else if parent.TakesFirst child then
    match children.find? (·.tag = child) with
    | some c => [c]
    | none => standIn child
  else []

/-- All children that the text of a node with a tag takes up, tag by tag. -/
def consulted (parent : Tag) (children : List Node) : List Node :=
  Tag.all.flatMap fun child => takenUp parent child children

mutual

/-- The tree without what never gets into its text. -/
def skeleton : Node → Node
  | ⟨_, tag, data, none⟩ =>
    { key := ⟨""⟩, tag, data := data.shown tag, kids := some (consulted tag []) }
  | ⟨_, tag, data, some kids⟩ =>
    { key := ⟨""⟩, tag, data := data.shown tag, kids := some (consulted tag (skeletons kids)) }

def skeletons : List Node → List Node
  | [] => []
  | n :: ns => skeleton n :: skeletons ns

end

variable {style : Style}

theorem skeletons_eq_map (ns : List Node) : skeletons ns = ns.map skeleton := by
  induction ns with
  | nil => rfl
  | cons n ns ih => rw [skeletons, ih, List.map_cons]

theorem skeleton_eq (n : Node) :
    skeleton n =
      { key := ⟨""⟩, tag := n.tag, data := n.data.shown n.tag,
        kids := some (consulted n.tag (n.children.map skeleton)) } := by
  obtain ⟨_, _, _, _ | kids⟩ := n
  · rfl
  · rw [skeleton, skeletons_eq_map]
    rfl

@[simp] theorem tag_skeleton (n : Node) : (skeleton n).tag = n.tag := by rw [skeleton_eq]

theorem children_skeleton (n : Node) :
    (skeleton n).children = consulted n.tag (n.children.map skeleton) := by
  rw [skeleton_eq]
  rfl

/-! ## What is taken up -/

theorem tag_of_mem_takenUp {parent child : Tag} {children : List Node} {c : Node}
    (h : c ∈ takenUp parent child children) : c.tag = child := by
  unfold takenUp at h
  split at h
  · simpa using (List.mem_filter.1 h).2
  · split at h
    · cases found : children.find? (·.tag = child) with
      | none =>
        rw [found] at h
        cases child <;> simp [standIn] at h <;> simp [h]
      | some first =>
        rw [found] at h
        obtain rfl := List.mem_singleton.1 h
        simpa using List.find?_some found
    · cases h

/-- The children of one tag are those that were taken up with that tag. -/
theorem filter_consulted (parent child : Tag) (children : List Node) :
    (consulted parent children).filter (·.tag = child) = takenUp parent child children := by
  have piece (other : Tag) : (takenUp parent other children).filter (·.tag = child) =
      if other = child then takenUp parent child children else [] := by
    by_cases same : other = child
    · subst same
      rw [if_pos rfl, List.filter_eq_self]
      exact fun c hc => by simpa using tag_of_mem_takenUp hc
    · rw [if_neg same, List.filter_eq_nil_iff]
      exact fun c hc => by simpa [tag_of_mem_takenUp hc] using same
  rw [consulted, List.filter_flatMap]
  simp only [piece]
  cases child <;> simp [Tag.all]

theorem childrenOfTag_skeleton {n : Node} {child : Tag} (takes : n.tag.TakesAll child) :
    (skeleton n).childrenOfTag child = (n.childrenOfTag child).map skeleton := by
  rw [Node.childrenOfTag, children_skeleton, filter_consulted, takenUp, if_pos takes,
    List.filter_map, Node.childrenOfTag]
  simp only [Function.comp_def, tag_skeleton]

/-- Under a node that takes up the first child of a tag, it is there or something stands
in for it. -/
theorem childOfTag_skeleton {n : Node} {child : Tag} (takes : n.tag.TakesFirst child) :
    (skeleton n).childOfTag child =
      ((n.childOfTag child).map skeleton).or (standIn child).head? := by
  have single : ¬ n.tag.TakesAll child := fun list => list.not_takesFirst takes
  have first : (n.children.map skeleton).find? (·.tag = child) =
      (n.childOfTag child).map skeleton := by
    rw [List.find?_map, Node.childOfTag]
    simp only [Function.comp_def, tag_skeleton]
  rw [Node.childOfTag, ← List.head?_filter, children_skeleton, filter_consulted, takenUp,
    if_neg single, if_pos takes, first]
  cases n.childOfTag child <;> rfl

/-! ## The text of a skeleton -/

/-- The texts of children, with those of what stands in for missing ones. -/
def Parts.filled (style : Style) (parts : Parts) : Parts :=
  { parts with first := fun tag => (parts.first tag).or ((standIn tag).head?.map (text style)) }

/-- What stands in for a missing child adds nothing to a text. -/
theorem compose_filled (style : Style) (tag : Tag) (data : Payload) (parts : Parts) :
    compose style tag data (parts.filled style) = compose style tag data parts := by
  have all : (parts.filled style).all = parts.all := rfl
  have columns :
      ((parts.filled style).first .columns).getD "*" = (parts.first .columns).getD "*" := by
    show ((parts.first .columns).or (some "*")).getD "*" = _
    cases parts.first .columns <;> rfl
  have name : (parts.filled style).first .aliasName = (parts.first .aliasName).or (some "") := rfl
  have named :
      ((parts.filled style).first .aliasName).getD "" = (parts.first .aliasName).getD "" := by
    rw [name]
    cases parts.first .aliasName <;> rfl
  have others (child : Tag) (h : standIn child = []) :
      (parts.filled style).first child = parts.first child := by
    show (parts.first child).or ((standIn child).head?.map (text style)) = _
    rw [h]
    exact Option.or_none
  cases tag with
  | query => simp only [compose, others .ctes rfl, others .select rfl]
  | cte => simp only [compose, named, others .select rfl]
  | select => simp only [compose, columns, others .fromClause rfl]
  | column => simp only [compose, named, others .var rfl]
  | fromClause => simp only [compose, all, others .table rfl]
  | table =>
    simp only [compose, name]
    cases parts.first .aliasName <;> rfl
  | _ => rfl

theorem picked?_shown (data : Payload) :
    Payload.picked? { selected := data.picked? } = data.picked? := by
  simp [Payload.picked?]

/-- No text is made of any other part of a payload. -/
theorem compose_shown (style : Style) (tag : Tag) (data : Payload) (parts : Parts) :
    compose style tag (data.shown tag) parts = compose style tag data parts := by
  cases tag with
  | aliasName => rfl
  | table => simp only [compose, Payload.shown, picked?_shown]
  | var =>
    by_cases raw : data.isRaw <;> simp [compose, Payload.shown, raw, picked?_shown]
  | _ => rfl

/-- A tree and its skeleton have the same text. -/
theorem text_skeleton (style : Style) (n : Node) : text style (skeleton n) = text style n := by
  induction n using Node.children_induction with
  | step n ih =>
    -- What is taken up has the same text in both, save where something stands in.
    have first (child : Tag) (takes : n.tag.TakesFirst child) :
        (parts style (skeleton n)).first child = ((parts style n).filled style).first child := by
      show ((skeleton n).childOfTag child).map (text style) =
        ((n.childOfTag child).map (text style)).or ((standIn child).head?.map (text style))
      rw [childOfTag_skeleton takes, Option.map_or]
      cases found : n.childOfTag child with
      | none => rfl
      | some c =>
        have here : text style (skeleton c) = text style c := ih c (List.mem_of_find?_eq_some found)
        simp [here]
    have all (child : Tag) (takes : n.tag.TakesAll child) :
        (parts style (skeleton n)).all child = ((parts style n).filled style).all child := by
      show ((skeleton n).childrenOfTag child).map (text style) =
        (n.childrenOfTag child).map (text style)
      rw [childrenOfTag_skeleton takes, List.map_map]
      exact List.map_congr_left fun c hc => ih c (List.mem_filter.1 hc).1
    calc text style (skeleton n)
        = compose style n.tag (n.data.shown n.tag) (parts style (skeleton n)) := by
          rw [text_eq_compose, tag_skeleton, skeleton_eq n]
      _ = compose style n.tag n.data (parts style (skeleton n)) := compose_shown ..
      _ = compose style n.tag n.data ((parts style n).filled style) := compose_congr first all
      _ = compose style n.tag n.data (parts style n) := compose_filled ..
      _ = text style n := (text_eq_compose n).symm

theorem text_eq_of_skeleton (style : Style) {a b : Node} (same : skeleton a = skeleton b) :
    text style a = text style b := by
  rw [← text_skeleton, same, text_skeleton]

/-! ## What a skeleton does not show -/

theorem skeleton_congr {a b : Node} (tag : b.tag = a.tag)
    (data : b.data.shown a.tag = a.data.shown a.tag)
    (children : consulted a.tag (b.children.map skeleton) =
      consulted a.tag (a.children.map skeleton)) : skeleton b = skeleton a := by
  rw [skeleton_eq, skeleton_eq a, tag, data, children]

/-- Where nothing is taken up, all children are the same. -/
theorem consulted_eq_nil {parent : Tag}
    (h : ∀ child, ¬ parent.TakesAll child ∧ ¬ parent.TakesFirst child) (children : List Node) :
    consulted parent children = [] := by
  rw [consulted, List.flatMap_eq_nil_iff]
  intro child _
  rw [takenUp, if_neg (h child).1, if_neg (h child).2]

/-- The second node differs from the first by something that no text shows. -/
inductive Unseen : Node → Node → Prop
  | rekeyed (n : Node) (key : Key) : Unseen n { n with key }
  | condition {n m : Node} (old : n.tag = .whereClause) (new : m.tag = .whereClause) : Unseen n m
  | join {n m : Node} (old : n.tag = .join) (new : m.tag = .join) : Unseen n m
  | rawText {n : Node} (var : n.tag = .var) (picks : n.data.isRaw = false) (sql : Option String) :
    Unseen n (n.withData { n.data with rawSql := sql })
  | pick {n : Node} (var : n.tag = .var) (raw : n.data.isRaw = true) (key : Option Key) :
    Unseen n (n.withData { n.data with selected := key })

theorem Unseen.skeleton_eq {n m : Node} (h : Unseen n m) : skeleton m = skeleton n := by
  have childless {tag : Tag} (hidden : tag = .whereClause ∨ tag = .join) (child : Tag) :
      ¬ tag.TakesAll child ∧ ¬ tag.TakesFirst child := by
    rcases hidden with rfl | rfl <;> cases child <;> decide
  cases h with
  | rekeyed key => exact skeleton_congr rfl rfl rfl
  | condition old new =>
    have none := consulted_eq_nil (childless (.inl rfl))
    refine skeleton_congr (new.trans old.symm) ?_ ?_
    · rw [old]
      rfl
    · rw [old, none, none]
  | join old new =>
    have none := consulted_eq_nil (childless (.inr rfl))
    refine skeleton_congr (new.trans old.symm) ?_ ?_
    · rw [old]
      rfl
    · rw [old, none, none]
  | rawText var picks sql =>
    refine skeleton_congr rfl ?_ rfl
    simp [Payload.shown, var, picks, Node.withData, Payload.picked?]
  | pick var raw key =>
    refine skeleton_congr rfl ?_ rfl
    simp [Payload.shown, var, raw, Node.withData]

/-- Exchanging a node for one with the same skeleton changes no skeleton above it. -/
theorem skeleton_replaceBelow {n t r new : Node} {keys : List Key} (ht : n.descend keys = some t)
    (same : skeleton r = skeleton t) (h : Node.replaceBelow r n keys = .ok new) :
    skeleton new = skeleton n := by
  refine Node.replaceBelow_induction (fun n before c c' after hs below => ?_) ht same h
  refine skeleton_congr rfl rfl ?_
  rw [Node.children_withChildren, hs, List.map_append, List.map_append, List.map_cons,
    List.map_cons, below]

/-- Documents with the same skeleton have the same text. So an edit that changes a key,
what is below a where clause or a join, the kind of a join, or what a variable keeps for
its other mode leaves the skeleton as it is, and with it the text. -/
theorem document_of_skeleton (style : Style) :
    (∀ a b : Node, a.tag = .query → b.tag = .query → skeleton a = skeleton b →
      ∃ sql, document style a = .ok sql ∧ document style b = .ok sql) ∧
    ∀ (root t r : Node) (path : List Key), root.tag = .query → root.locate path = .ok t →
      Unseen t r → ∃ new, root.replaceAt path r = .ok new ∧ skeleton new = skeleton root ∧
        document style new = document style root := by
  refine ⟨fun a b ha hb same => ?_, fun root t r path query located unseen => ?_⟩
  · rw [document_eq_ok ha, document_eq_ok hb, text_eq_of_skeleton style same]
    exact ⟨_, rfl, rfl⟩
  · obtain ⟨nonempty, ht⟩ := Node.locate_eq_ok.1 located
    obtain ⟨new, hr⟩ := Node.exists_replaceBelow ht r
    have same : skeleton new = skeleton root := skeleton_replaceBelow ht unseen.skeleton_eq hr
    have tag : new.tag = .query := by rw [← tag_skeleton, same, tag_skeleton, query]
    refine ⟨new, Node.replaceAt_eq_ok.2 ⟨nonempty, hr⟩, same, ?_⟩
    rw [document_eq_ok tag, document_eq_ok query, text_eq_of_skeleton style same]

end Sql

namespace Node

def noText (name : String) : Node := { key := ⟨name⟩, tag := .aliasName }

/-- The query of recent days under other keys, in another order, with conditions, hidden
raw SQL, an alias without text and a select that no text takes up. -/
def recentDaysAgain : Node :=
  { key := ⟨"root"⟩, tag := .query, data := { aliasText := some "root" }, kids := some [
      { key := ⟨"main"⟩, tag := .select, kids := some [
        { key := ⟨"where"⟩, tag := .whereClause, kids := some [noText "condition"] },
        { key := ⟨"from"⟩, tag := .fromClause, kids := some [
          { key := ⟨"table"⟩, tag := .table, data := { selected := some ⟨"recent"⟩ },
            kids := some [noText "no name"] }] },
        { key := ⟨"columns"⟩, tag := .columns, kids := some [
          { key := ⟨"first"⟩, tag := .column, kids := some [
            { key := ⟨"name"⟩, tag := .aliasName, data := { aliasText := some "seen" } },
            { key := ⟨"var"⟩, tag := .var,
              data := { rawSql := some "now()", selected := some ⟨"day"⟩ } }] }] }] },
      { key := ⟨"list"⟩, tag := .ctes, kids := some [
        { key := ⟨"cte"⟩, tag := .cte, kids := some [
          selectFrom "days" [pickedColumn "day" "orders.day"] "orders",
          { key := ⟨"cte name"⟩, tag := .aliasName, data := { aliasText := some "recent" } }] }] },
      selectFrom "spare" [] "orders"] }

end Node

namespace Sql

open Node

/-- Both have one text, which a condition does not change. -/
theorem recentDays_unseen_changes (style : Style) :
    skeleton recentDaysAgain = skeleton recentDays ∧
    (∃ sql, document style recentDaysAgain = .ok sql ∧ document style recentDays = .ok sql) ∧
    ∃ new, recentDays.replaceAt [⟨"query"⟩, ⟨"outer"⟩, ⟨"outer.where"⟩]
        { key := ⟨"where"⟩, tag := .whereClause, kids := some [noText "condition"] } = .ok new ∧
      document style new = document style recentDays := by
  obtain ⟨alike, edited⟩ := document_of_skeleton style
  have same : skeleton recentDaysAgain = skeleton recentDays := by decide
  have located : recentDays.locate [⟨"query"⟩, ⟨"outer"⟩, ⟨"outer.where"⟩] =
      .ok { key := ⟨"outer.where"⟩, tag := .whereClause } := by decide
  obtain ⟨new, done, -, kept⟩ := edited recentDays _
    { key := ⟨"where"⟩, tag := .whereClause, kids := some [noText "condition"] } _ rfl located
    (.condition rfl rfl)
  exact ⟨same, alike _ _ rfl rfl same, new, done, kept⟩

end Sql

end QueryTree
