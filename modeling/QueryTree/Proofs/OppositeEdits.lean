import QueryTree.Proofs.HiddenPayloads
import QueryTree.Proofs.PayloadEdits
import QueryTree.Proofs.SqlSkeleton

/-! Edits that take each other back. A child that was added goes again, and so does an
alias that was toggled on. What is left is the tree as it was, but for one thing: a node
that had no list of children has an empty one. Neither validation nor the text nor name
resolution tells the difference. -/

namespace QueryTree.Node

/-! ## Absent and empty lists -/

/-- The payload is that of the node. -/
def Carries (n : Node) (data : Payload) : Prop := data = n.data

theorem Carries.refl (n : Node) : Carries n n.data := Eq.refl n.data

/-- The same tree, but for lists of children that are absent in one and empty in the other. -/
def Relisted (a b : Node) : Prop := Alike Carries a b

/-- Validation, the text and name resolution make the same of both trees. -/
structure Indistinguishable (a b : Node) : Prop where
  violations : b.violations = a.violations
  text : ∀ style, Sql.document style b = Sql.document style a
  scopes : SameScopes a b
  dangling : ∀ base, b.dangling base = a.dangling base

section Rules

variable {R : Node → Payload → Prop} {n n' : Node}

theorem Alike.childTags_eq (h : Alike R n n') : n'.childTags = n.childTags :=
  map_eq_map_iff_forall₂.2 (h.children.imp fun _ _ same => same.tag)

theorem brokenRule?_congr (key : n'.key = n.key) (tag : n'.tag = n.tag)
    (childTags : n'.childTags = n.childTags) : n'.brokenRule? = n.brokenRule? := by
  have length (m : Node) : m.children.length = m.childTags.length := by simp [Node.childTags]
  have tags (m : Node) : m.children.map (·.tag) = m.childTags := rfl
  unfold brokenRule?
  simp only [count_eq_count_childTags, length, tags, key, tag, childTags]

theorem violationsAfter_congr {ns ns' : List Node} (h : List.Forall₂ (Alike R) ns ns')
    (seen : List Key) : violationsAfter seen ns' = violationsAfter seen ns := by
  induction h generalizing seen with
  | nil => rfl
  | cons same _ ih =>
    have rule := brokenRule?_congr same.key same.tag same.childTags_eq
    rw [violationsAfter, violationsAfter, same.key, rule, ih]

/-- Payloads break no rules. -/
theorem Alike.violations_eq (h : Alike R n n') : n'.violations = n.violations :=
  violationsAfter_congr h.preorder []

end Rules

namespace Relisted

variable {a b : Node}

theorem refl (n : Node) : Relisted n n := Alike.refl_of Carries.refl n

theorem data_eq (h : Relisted a b) : b.data = a.data := h.data

theorem skeleton_eq (h : Relisted a b) : Sql.skeleton b = Sql.skeleton a := by
  refine Alike.induction (fun a b here below => ?_) h
  have children : b.children.map Sql.skeleton = a.children.map Sql.skeleton :=
    map_eq_map_iff_forall₂.2 below
  refine Sql.skeleton_congr here.tag ?_ (by rw [children])
  rw [data_eq here]

theorem document_eq (h : Relisted a b) (style : Sql.Style) :
    Sql.document style b = Sql.document style a := by
  by_cases query : a.tag = .query
  · rw [Sql.document_eq_ok query, Sql.document_eq_ok (h.tag.trans query),
      Sql.text_eq_of_skeleton style h.skeleton_eq]
  · rw [Sql.document, Sql.document, h.tag, h.key, if_neg query, if_neg query]

theorem sameScopes (h : Relisted a b) : SameScopes a b := by
  refine Alike.sameScopes (h.mono ?_)
  rintro n _ rfl
  exact ReadsAlike.refl n

theorem dangling_eq (h : Relisted a b) (base : Scope) : b.dangling base = a.dangling base := by
  have judged : b.reportOn base = a.reportOn base := by
    unfold reportOn
    rw [h.sameScopes.byKey]
  have contents : b.preorder.map content = a.preorder.map content := by
    refine map_eq_map_iff_forall₂.2 (h.preorder.imp fun n n' same => ?_)
    rw [content, content, same.key, same.tag, data_eq same]
  rw [dangling_eq_flatMap, dangling_eq_flatMap, judged, flatMap_reportOn_congr contents]

theorem indistinguishable (h : Relisted a b) : Indistinguishable a b where
  violations := h.violations_eq
  text := h.document_eq
  scopes := h.sameScopes
  dangling := h.dangling_eq

end Relisted

/-! ## Added and removed -/

/-- The node with its list of children, which is empty if it had none. -/
def listed (n : Node) : Node := n.withChildren n.children

section Children

variable {t c : Node}

theorem listed_eq_self (h : t.kids.isSome) : t.listed = t := by
  obtain ⟨_, _, _, _ | kids⟩ := t
  · cases h
  · rfl

theorem relisted_listed (t : Node) : Relisted t t.listed :=
  .mk rfl rfl rfl (List.forall₂_same.2 fun m _ => Relisted.refl m)

theorem removeChild_addChild (fresh : ∀ s ∈ t.children, s.key ≠ c.key) (place : Place) :
    (t.addChild c place).removeChild c.key = t.listed := by
  cases place with
  | front =>
    have split : (t.addChild c .front).children = [] ++ c :: t.children := rfl
    exact removeChild_split split fresh
  | back =>
    have split : (t.addChild c .back).children = t.children ++ c :: [] := rfl
    have apart : ∀ s ∈ t.children ++ [], s.key ≠ c.key := by simpa using fresh
    rw [removeChild_split split apart, List.append_nil]
    rfl

theorem childOfTag_split {before after : List Node} (split : t.children = before ++ c :: after)
    (absent : ∀ s ∈ before, s.tag ≠ c.tag) : t.childOfTag c.tag = some c := by
  have none : before.find? (·.tag = c.tag) = none :=
    List.find?_eq_none.2 fun s hs => by simpa using absent s hs
  rw [childOfTag, split, List.find?_append, none]
  simp

/-! ## Toggled -/

/-- An alias without text. -/
def bareAlias (key : Key) : Node := { key, tag := .aliasName }

theorem toggleAlias_on (absent : ∀ s ∈ t.children, s.tag ≠ .aliasName) {kind : KeyKind}
    {supply rest : Supply} {key : Key} (drawn : Key.fresh kind supply = (key, rest)) :
    Gesture.toggleAlias.revise kind t supply = (t.addChild (bareAlias key) .back, rest) := by
  have none : t.childOfTag .aliasName = none :=
    List.find?_eq_none.2 fun s hs => by simpa using absent s hs
  have made : (Sketch.leaf .aliasName).build kind supply = (bareAlias key, rest) := by
    show (bareAlias (Key.fresh kind supply).1, (Key.fresh kind supply).2) = _
    rw [drawn]
  rw [Gesture.revise, none]
  show (t.addChild ((Sketch.leaf .aliasName).build kind supply).1 .back,
    ((Sketch.leaf .aliasName).build kind supply).2) = _
  rw [made]

theorem toggleAlias_off (present : t.childOfTag .aliasName = some c) (kind : KeyKind)
    (supply : Supply) :
    Gesture.toggleAlias.revise kind t supply = (t.removeChild c.key, supply) := by
  rw [Gesture.revise, present]
  rfl

end Children

/-! ## Anywhere in a tree -/

section Located

variable {root t : Node} {path : List Key}

/-- With its list of children put in the place of a node, the tree is the same, or one
list has become empty that was absent. -/
theorem exists_listed (located : root.locate path = .ok t) :
    ∃ listed, root.replaceAt path t.listed = .ok listed ∧ (t.kids.isSome → listed = root) ∧
      Relisted root listed := by
  obtain ⟨nonempty, ht⟩ := locate_eq_ok.1 located
  obtain ⟨listed, hr⟩ := exists_replaceBelow ht t.listed
  have replaced : root.replaceAt path t.listed = .ok listed := replaceAt_eq_ok.2 ⟨nonempty, hr⟩
  refine ⟨listed, replaced, fun present => ?_, ?_⟩
  · rw [listed_eq_self present, replaceAt_self located] at replaced
    exact (Except.ok.inj replaced).symm
  · exact Alike.exchange Carries.refl ht t.relisted_listed hr

theorem addChildAt_eq (located : root.locate path = .ok t) (c : Node) (place : Place) :
    root.addChildAt path c place = root.replaceAt path (t.addChild c place) := by
  rw [addChildAt, located]
  rfl

theorem removeChildAt_eq (located : root.locate path = .ok t) (key : Key) :
    root.removeChildAt path key = root.replaceAt path (t.removeChild key) := by
  rw [removeChildAt, located]
  rfl

/-- The tree with a child added at one end of a node, from which dropping the child leads
back. -/
theorem exists_added (located : root.locate path = .ok t) {c : Node}
    (fresh : ∀ s ∈ t.children, s.key ≠ c.key) (place : Place) :
    ∃ added, root.replaceAt path (t.addChild c place) = .ok added ∧
      added.locate path = .ok (t.addChild c place) ∧
      added.replaceAt path ((t.addChild c place).removeChild c.key) =
        root.replaceAt path t.listed := by
  have key : (t.addChild c place).key = t.key := by cases place <;> rfl
  obtain ⟨added, replaced, found, newer⟩ := exists_put located key
  exact ⟨added, replaced, found, by rw [removeChild_addChild fresh, newer]⟩

theorem gestureEach_toggle_on {kind : KeyKind} {supply rest : Supply} {key : Key} {new : Node}
    (located : root.locate path = .ok t) (absent : ∀ s ∈ t.children, s.tag ≠ .aliasName)
    (drawn : Key.fresh kind supply = (key, rest))
    (added : root.replaceAt path (t.addChild (bareAlias key) .back) = .ok new)
    (later : List Gesture) :
    gestureEach kind path (.toggleAlias :: later) root supply =
      gestureEach kind path later new rest := by
  have on := toggleAlias_on absent drawn
  rw [gestureEach_cons located (by rw [on, added]), on]

theorem gestureEach_toggle_off {c new : Node} (located : root.locate path = .ok t)
    (present : t.childOfTag .aliasName = some c)
    (dropped : root.replaceAt path (t.removeChild c.key) = .ok new) (kind : KeyKind)
    (supply : Supply) :
    gestureEach kind path [.toggleAlias] root supply = .ok (new, supply) := by
  have off := toggleAlias_off present kind supply
  rw [gestureEach_cons located (by rw [off, dropped]), off]
  rfl

/-- A child that is added is the first or the last one of its node, beside those that were
there, and removing it gives the tree back. So does toggling an alias, which comes last, on
and off. Where the node had no list of children it has an empty one then, which nothing
tells from none. Toggling the only alias off removes it alone. -/
theorem opposite_edits_restore (located : root.locate path = .ok t) :
    (∃ restored, root.replaceAt path t.listed = .ok restored ∧
      (t.kids.isSome → restored = root) ∧ Relisted root restored ∧
      Indistinguishable root restored ∧
      (∀ c place, (∀ s ∈ t.children, s.key ≠ c.key) →
        ∃ added, root.addChildAt path c place = .ok added ∧
          added.locate path = .ok (t.addChild c place) ∧
          (t.addChild c place).children =
            (match place with
              | .front => c :: t.children
              | .back => t.children ++ [c]) ∧
          added.removeChildAt path c.key = .ok restored) ∧
      ∀ kind supply key rest, Key.fresh kind supply = (key, rest) →
        (∀ s ∈ t.children, s.tag ≠ .aliasName) → (∀ s ∈ t.children, s.key ≠ key) →
        ∃ once, gestureEach kind path [.toggleAlias] root supply = .ok (once, rest) ∧
          once.locate path = .ok (t.addChild (bareAlias key) .back) ∧
          (t.addChild (bareAlias key) .back).children = t.children ++ [bareAlias key] ∧
          gestureEach kind path [.toggleAlias, .toggleAlias] root supply =
            .ok (restored, rest)) ∧
    ∀ before name after, t.children = before ++ name :: after → name.tag = .aliasName →
      (∀ s ∈ before ++ after, s.tag ≠ .aliasName) → (t.children.map (·.key)).Nodup →
      ∃ new, root.replaceAt path (t.withChildren (before ++ after)) = .ok new ∧
        ∀ kind supply, gestureEach kind path [.toggleAlias] root supply = .ok (new, supply) := by
  obtain ⟨restored, replaced, unchanged, relisted⟩ := exists_listed located
  refine ⟨⟨restored, replaced, unchanged, relisted, relisted.indistinguishable, ?_, ?_⟩, ?_⟩
  · intro c place fresh
    obtain ⟨added, done, found, undone⟩ := exists_added located fresh place
    refine ⟨added, (addChildAt_eq located c place).trans done, found, ?_, ?_⟩
    · cases place <;> rfl
    · rw [removeChildAt_eq found, undone, replaced]
  · intro kind supply key rest drawn absent fresh
    have apart : ∀ s ∈ t.children, s.key ≠ (bareAlias key).key := fresh
    obtain ⟨once, done, found, undone⟩ := exists_added located apart .back
    have on := gestureEach_toggle_on located absent drawn done
    -- The second request is built from the node that has the alias, so it drops one.
    have split : (t.addChild (bareAlias key) .back).children =
      t.children ++ bareAlias key :: [] := rfl
    have present : (t.addChild (bareAlias key) .back).childOfTag .aliasName =
      some (bareAlias key) := childOfTag_split split absent
    have off := gestureEach_toggle_off found present (undone.trans replaced) kind rest
    exact ⟨once, on [], found, split, (on [.toggleAlias]).trans off⟩
  · intro before name after split tag others distinct
    have key : (t.withChildren (before ++ after)).key = t.key := rfl
    obtain ⟨new, done, -⟩ := exists_put located key
    have present : t.childOfTag name.tag = some name :=
      childOfTag_split split fun s hs => tag ▸ others s (List.mem_append_left _ hs)
    rw [tag] at present
    have dropped := removeChild_split split (key_ne_of_split split distinct)
    exact ⟨new, done, gestureEach_toggle_off located present (dropped ▸ done)⟩

end Located

def daysTable : Node := { key := ⟨"table"⟩, tag := .table, data := { selected := some ⟨"days"⟩ } }

/-- A from clause whose table has no list of children. -/
def daysClause : Node := { key := ⟨"from"⟩, tag := .fromClause, kids := some [daysTable] }

/-- The table gets an empty list when an alias comes and goes, while a column that had its
alias is left with its variable. -/
theorem days_toggled :
    daysClause.locate [⟨"from"⟩, ⟨"table"⟩] = .ok daysTable ∧
    (∃ restored, daysClause.replaceAt [⟨"from"⟩, ⟨"table"⟩] { daysTable with kids := some [] } =
        .ok restored ∧ Indistinguishable daysClause restored ∧
      (∃ added,
        daysClause.addChildAt [⟨"from"⟩, ⟨"table"⟩] (bareAlias ⟨"name"⟩) .front = .ok added ∧
        added.locate [⟨"from"⟩, ⟨"table"⟩] = .ok (daysTable.addChild (bareAlias ⟨"name"⟩) .front) ∧
        (daysTable.addChild (bareAlias ⟨"name"⟩) .front).children = [bareAlias ⟨"name"⟩] ∧
        added.removeChildAt [⟨"from"⟩, ⟨"table"⟩] ⟨"name"⟩ = .ok restored) ∧
      ∃ once, gestureEach .sequential [⟨"from"⟩, ⟨"table"⟩] [.toggleAlias] daysClause
          { random := id } = .ok (once, { numbered := 1, random := id }) ∧
        once.locate [⟨"from"⟩, ⟨"table"⟩] =
          .ok (daysTable.addChild (bareAlias (Key.sequential 1)) .back) ∧
        gestureEach .sequential [⟨"from"⟩, ⟨"table"⟩] [.toggleAlias, .toggleAlias] daysClause
          { random := id } = .ok (restored, { numbered := 1, random := id })) ∧
    seenColumn.locate [⟨"seen"⟩] = .ok seenColumn ∧
    ∃ new, seenColumn.replaceAt [⟨"seen"⟩] (seenColumn.withChildren [seenVar]) = .ok new ∧
      gestureEach .sequential [⟨"seen"⟩] [.toggleAlias] seenColumn { random := id } =
        .ok (new, { random := id }) := by
  have located : daysClause.locate [⟨"from"⟩, ⟨"table"⟩] = .ok daysTable := by decide
  obtain ⟨⟨restored, replaced, -, -, same, added, toggled⟩, -⟩ := opposite_edits_restore located
  have named : seenColumn.locate [⟨"seen"⟩] = .ok seenColumn := by decide
  obtain ⟨-, off⟩ := opposite_edits_restore named
  obtain ⟨new, done, dropped⟩ := off [seenVar] _ [] rfl rfl (by decide) (by decide)
  obtain ⟨once, shown, found, -, back⟩ :=
    toggled .sequential { random := id } _ _ rfl (by decide) (by decide)
  refine ⟨located, ⟨restored, replaced, same, ?_, once, shown, found, back⟩, named, new, done, ?_⟩
  · exact added (bareAlias ⟨"name"⟩) .front (by decide)
  · exact dropped _ _

end QueryTree.Node
