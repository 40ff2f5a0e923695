import QueryTree.Proofs.Replacement
import QueryTree.Proofs.ScopePasses
import QueryTree.Proofs.SqlComposition

/-! Where an edit shows in the text of a document. A node shows if the text takes it
up at every step of the way down to it; then its own text stands in that of the
document, and an edit changes nothing but that stretch. All other nodes can be
edited without any change to the text. -/

namespace QueryTree.Sql

variable {style : Style} {n c t root : Node} {before after : List Node} {key : Key}
  {keys path : List Key}

/-- The text takes up each child on the way that the keys lead. -/
def Shown : Node → List Key → Prop
  | _, [] => True
  | n, key :: keys =>
    match n.child key with
    | some c => Takes n (n.children.takeWhile (·.key ≠ key)) c ∧ Shown c keys
    | none => False

theorem shown_cons (hc : n.child key = some c) (hs : n.children = before ++ c :: after)
    (hb : ∀ b ∈ before, b.key ≠ key) :
    Shown n (key :: keys) ↔ Takes n before c ∧ Shown c keys := by
  rw [Shown, hc, Node.takeWhile_key_ne hs (Node.child_key hc) hb]

instance decidableShown : (n : Node) → (keys : List Key) → Decidable (Shown n keys)
  | _, [] => isTrue trivial
  | n, key :: keys =>
    match hc : n.child key with
    | none => isFalse (by rw [Shown, hc]; exact id)
    | some c =>
      have := decidableShown c keys
      decidable_of_iff (Takes n (n.children.takeWhile (·.key ≠ key)) c ∧ Shown c keys)
        (by rw [Shown, hc])

/-! ## Which nodes show -/

/-- Nothing shows below a name. -/
theorem Shown.ne_aliasName (h : Shown n keys) (ht : n.descend keys = some t)
    (notName : t.tag ≠ .aliasName) : n.tag ≠ .aliasName := by
  cases keys with
  | nil =>
    obtain rfl := Option.some.inj ht
    exact notName
  | cons key keys =>
    obtain ⟨c, hc, -⟩ := Node.descend_cons_eq_some.1 ht
    obtain ⟨before, after, hs, -, hb⟩ := Node.child_split hc
    exact ((shown_cons hc hs hb).1 h).1.ne_aliasName

/-- Every node that shows has a text. -/
theorem Shown.hasText (h : Shown n keys) (ht : n.descend keys = some t) (hn : n.tag.HasText) :
    t.tag.HasText := by
  induction keys generalizing n with
  | nil =>
    obtain rfl := Option.some.inj ht
    exact hn
  | cons key keys ih =>
    obtain ⟨c, hc, ht⟩ := Node.descend_cons_eq_some.1 ht
    obtain ⟨before, after, hs, -, hb⟩ := Node.child_split hc
    obtain ⟨takes, shown⟩ := (shown_cons hc hs hb).1 h
    exact ih shown ht takes.hasText

/-! ## Edits -/

/-- The text of a tree with a node exchanged for another one of its tag. -/
theorem text_replaceBelow (style : Style) (ht : n.descend keys = some t)
    (notName : t.tag ≠ .aliasName) :
    (¬ Shown n keys ∧ ∀ r new, r.tag = t.tag → Node.replaceBelow r n keys = .ok new →
      text style new = text style n) ∨
    Shown n keys ∧ ∃ whole, Encloses whole ∧
      ∀ r new, r.tag = t.tag → Node.replaceBelow r n keys = .ok new →
        text style new = whole (text style r) := by
  induction keys generalizing n with
  | nil =>
    obtain rfl := Option.some.inj ht
    refine .inr ⟨trivial, _, .id, fun r new _ h => ?_⟩
    rw [Node.replaceBelow_nil] at h
    rw [Except.ok.inj h]
  | cons key keys ih =>
    obtain ⟨c, hc, hct⟩ := Node.descend_cons_eq_some.1 ht
    obtain ⟨before, after, hs, hk, hb⟩ := Node.child_split hc
    have shown_iff : Shown n (key :: keys) ↔ Takes n before c ∧ Shown c keys :=
      shown_cons hc hs hb
    have rebuilt : ∀ r new, r.tag = t.tag → Node.replaceBelow r n (key :: keys) = .ok new →
        ∃ c', Node.replaceBelow r c keys = .ok c' ∧ c'.tag = c.tag ∧
          new = n.withChildren (before ++ c' :: after) := by
      intro r new tag h
      subst hk
      obtain ⟨c', hr, result⟩ := Node.replaceBelow_split_eq_ok hs hb h
      exact ⟨c', hr, Node.tag_replaceBelow hct tag hr, result⟩
    by_cases takes : Takes n before c
    · rcases ih hct with ⟨hidden, same⟩ | ⟨shown, inner, encloses, inside⟩
      · refine .inl ⟨fun h => hidden (shown_iff.1 h).2, fun r new tag h => ?_⟩
        obtain ⟨c', hr, sameTag, rfl⟩ := rebuilt r new tag h
        exact text_congr hs sameTag (same r c' tag hr)
      · obtain ⟨whole, encloses', around⟩ := text_of_takes hs takes (shown.ne_aliasName hct notName)
        refine .inr ⟨shown_iff.2 ⟨takes, shown⟩, _, encloses'.comp encloses, fun r new tag h => ?_⟩
        obtain ⟨c', hr, sameTag, rfl⟩ := rebuilt r new tag h
        rw [around c' sameTag, inside r c' tag hr]
    · refine .inl ⟨fun h => takes (shown_iff.1 h).1, fun r new tag h => ?_⟩
      obtain ⟨c', hr, sameTag, rfl⟩ := rebuilt r new tag h
      exact text_of_not_takes hs takes sameTag

/-- An edit of a node other than a name, by one of its tag. If the node shows, the
new text is that of the replacement between two texts that depend on nothing of it;
if it does not show, the text stays the same. -/
theorem document_replaceAt (style : Style) (query : root.tag = .query)
    (located : root.locate path = .ok t) (notName : t.tag ≠ .aliasName) :
    (¬ Shown root path.tail ∧ ∀ r, r.tag = t.tag → ∃ new, root.replaceAt path r = .ok new ∧
      document style new = document style root) ∨
    Shown root path.tail ∧ ∃ pre post, ∀ r, r.tag = t.tag →
      ∃ part new, fragment style r = .ok part ∧ root.replaceAt path r = .ok new ∧
        document style new = .ok (pre ++ part ++ post) := by
  obtain ⟨nonempty, ht⟩ := Node.locate_eq_ok.1 located
  have edited (r : Node) (tag : r.tag = t.tag) : ∃ new, root.replaceAt path r = .ok new ∧
      Node.replaceBelow r root path.tail = .ok new ∧
      document style new = .ok (text style new) := by
    obtain ⟨new, hr⟩ := Node.exists_replaceBelow ht r
    have sameTag : new.tag = root.tag := Node.tag_replaceBelow ht tag hr
    exact ⟨new, Node.replaceAt_eq_ok.2 ⟨nonempty, hr⟩, hr, document_eq_ok (sameTag.trans query)⟩
  rcases text_replaceBelow style ht notName with
    ⟨hidden, same⟩ | ⟨shown, whole, ⟨pre, post, hwhole⟩, inside⟩
  · refine .inl ⟨hidden, fun r tag => ?_⟩
    obtain ⟨new, done, hr, sql⟩ := edited r tag
    refine ⟨new, done, ?_⟩
    rw [sql, same r new tag hr, document_eq_ok query]
  · refine .inr ⟨shown, pre, post, fun r tag => ?_⟩
    obtain ⟨new, done, hr, sql⟩ := edited r tag
    have hasText : r.tag.HasText := by
      rw [tag]
      exact shown.hasText ht (by rw [query]; decide)
    refine ⟨text style r, new, fragment_eq_ok hasText, done, ?_⟩
    rw [sql, inside r new tag hr, hwhole]

/-- A variable in a CTE shows, the where clause of the select around it does not. -/
theorem recentDays_edits :
    (∃ pre post, ∀ r : Node, r.tag = .var → ∃ part new, fragment {} r = .ok part ∧
      Node.recentDays.replaceAt [⟨"query"⟩, ⟨"ctes"⟩, ⟨"recent"⟩, ⟨"inner"⟩, ⟨"inner.columns"⟩,
        ⟨"day"⟩, ⟨"day.var"⟩] r = .ok new ∧ document {} new = .ok (pre ++ part ++ post)) ∧
    ∀ r : Node, r.tag = .whereClause → ∃ new,
      Node.recentDays.replaceAt [⟨"query"⟩, ⟨"outer"⟩, ⟨"outer.where"⟩] r = .ok new ∧
        document {} new = document {} Node.recentDays := by
  have day : Node.recentDays.locate [⟨"query"⟩, ⟨"ctes"⟩, ⟨"recent"⟩, ⟨"inner"⟩,
      ⟨"inner.columns"⟩, ⟨"day"⟩, ⟨"day.var"⟩] =
        .ok { key := ⟨"day.var"⟩, tag := .var, data := { selected := some ⟨"orders.day"⟩ } } := rfl
  have condition : Node.recentDays.locate [⟨"query"⟩, ⟨"outer"⟩, ⟨"outer.where"⟩] =
      .ok { key := ⟨"outer.where"⟩, tag := .whereClause } := rfl
  refine ⟨?_, ?_⟩
  · rcases document_replaceAt {} rfl day (by decide) with ⟨hidden, -⟩ | ⟨-, around⟩
    · exact absurd (by decide) hidden
    · exact around
  · rcases document_replaceAt {} rfl condition (by decide) with ⟨-, same⟩ | ⟨shown, -⟩
    · exact same
    · exact absurd shown (by decide)

end QueryTree.Sql
