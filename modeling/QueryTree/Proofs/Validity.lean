import QueryTree.Proofs.Replacement
import QueryTree.Shape

/-! When a tree breaks no rule: its keys are distinct and the children of every
node are what its tag admits. Both are judged from the key, the tag and the tags
of the children of each node, so a replacement with the same tag is judged by
itself and by the keys it shares with the rest of the tree. -/

namespace QueryTree

/-- The children that a tag admits, by their tags. -/
def Tag.Admits : Tag → List Tag → Prop
  | .query, tags => tags.count .ctes = 1 ∧ tags.count .select = 1
  | .select, tags => tags = [.columns, .fromClause, .whereClause]
  | .fromClause, tags => tags.count .table = 1
  | .column, tags => tags.count .var = 1 ∧ tags.count .aliasName ≤ 1
  | .join, tags => tags.count .table = 1 ∧ tags.count .joinOn = 1
  | .joinOn, tags => tags = [.var, .var]
  | .base, _ | .list, _ | .var, _ | .ctes, _ | .cte, _ | .columns, _ | .whereClause, _
  | .table, _ | .aliasName, _ | .sourceTable, _ => True

instance (tag : Tag) (tags : List Tag) : Decidable (tag.Admits tags) := by
  cases tag <;> unfold Tag.Admits <;> infer_instance

namespace Node

/-! ## Rules for every node -/

/-- Every node of the tree has children that suit its tag. -/
def Conforms (rule : Tag → List Tag → Prop) (n : Node) : Prop :=
  ∀ m ∈ n.preorder, rule m.tag m.childTags

instance (rule : Tag → List Tag → Prop) [∀ tag tags, Decidable (rule tag tags)] (n : Node) :
    Decidable (n.Conforms rule) :=
  inferInstanceAs (Decidable (∀ m ∈ n.preorder, rule m.tag m.childTags))

theorem conforms_iff {rule : Tag → List Tag → Prop} {n : Node} :
    n.Conforms rule ↔ rule n.tag n.childTags ∧ ∀ c ∈ n.children, c.Conforms rule := by
  constructor
  · intro h
    exact ⟨h n n.self_mem_preorder, fun c hc m hm => h m (mem_preorder_iff.2 (.inr ⟨c, hc, hm⟩))⟩
  · intro h m hm
    obtain ⟨hn, hc⟩ := h
    rcases mem_preorder_iff.1 hm with rfl | ⟨c, hmem, hm⟩
    · exact hn
    · exact hc c hmem m hm

theorem Conforms.of_mem {rule : Tag → List Tag → Prop} {n m : Node} (hn : n.Conforms rule)
    (h : m ∈ n.preorder) : m.Conforms rule := fun l hl =>
  hn l (mem_preorder_trans h hl)

theorem conforms_iff_outline {rule : Tag → List Tag → Prop} {n : Node} :
    n.Conforms rule ↔ ∀ o ∈ n.preorder.map outline, rule o.2.1 o.2.2 := by
  simp [Conforms, outline]

theorem keys_eq_outline (n : Node) : n.keys = (n.preorder.map outline).map (·.1) := by
  simp [keys, outline, Function.comp_def]

/-! ## The rules of a document -/

theorem count_eq_count_childTags (n : Node) (tag : Tag) : n.count tag = n.childTags.count tag := by
  rw [count, childTags, List.count_eq_countP, List.countP_map]
  rfl

/-- The only child with a tag is the first one. -/
theorem childOfTag_of_count {n c : Node} {tag : Tag} (once : n.childTags.count tag = 1)
    (hc : c ∈ n.children) (ht : c.tag = tag) : n.childOfTag tag = some c := by
  have one : (n.childrenOfTag tag).length = 1 := by
    rw [childrenOfTag, ← List.countP_eq_length_filter, ← once, ← count_eq_count_childTags]
    rfl
  obtain ⟨first, single⟩ := List.length_eq_one_iff.1 one
  have member : c ∈ n.childrenOfTag tag := List.mem_filter.2 ⟨hc, by simpa using ht⟩
  rw [single, List.mem_singleton] at member
  rw [childOfTag, ← List.head?_filter]
  show (n.childrenOfTag tag).head? = some c
  rw [single, member]
  rfl

/-- Two variables and nothing else. -/
theorem two_vars {tags : List Tag} :
    tags.count .var = 2 ∧ tags.length = 2 ↔ tags = [.var, .var] := by
  constructor
  · intro h
    obtain ⟨hc, hl⟩ := h
    obtain ⟨a, b, rfl⟩ := List.length_eq_two.1 hl
    have hall := List.count_eq_length.1 (hc.trans hl.symm)
    rw [← hall a (by simp), ← hall b (by simp)]
  · rintro rfl
    decide

theorem brokenRule?_eq_none {n : Node} : n.brokenRule? = none ↔ n.tag.Admits n.childTags := by
  have length : n.children.length = n.childTags.length := by simp [childTags]
  have tags : n.children.map (·.tag) = n.childTags := rfl
  have passes {p : Prop} [Decidable p] (v : Violation) :
      (if p then none else some v) = none ↔ p := by split <;> simp [*]
  unfold brokenRule?
  simp only [count_eq_count_childTags, length, tags, two_vars]
  cases n.tag <;> simp only [Tag.Admits, passes]

theorem violationsAfter_eq_nil {seen : List Key} {ns : List Node} :
    violationsAfter seen ns = [] ↔
      (∀ n ∈ ns, n.key ∉ seen) ∧ (ns.map (·.key)).Nodup ∧ ∀ n ∈ ns, n.brokenRule? = none := by
  induction ns generalizing seen with
  | nil => simp [violationsAfter]
  | cons n ns ih =>
    have head : (if n.key ∈ seen then [Violation.duplicateKey n.key] else []) = [] ↔
        n.key ∉ seen := by simp
    have rule : n.brokenRule?.toList = [] ↔ n.brokenRule? = none := Option.toList_eq_nil_iff
    rw [violationsAfter, List.append_eq_nil_iff, List.append_eq_nil_iff, head, rule, ih,
      List.map_cons, List.nodup_cons]
    rw [List.forall_mem_cons, List.forall_mem_cons]
    simp only [List.mem_cons, not_or, List.mem_map]
    constructor
    · intro h
      obtain ⟨⟨hseen, hrule⟩, hfresh, hnodup, hrules⟩ := h
      refine ⟨⟨hseen, fun m hm => (hfresh m hm).2⟩, ⟨?_, hnodup⟩, hrule, hrules⟩
      intro again
      obtain ⟨m, hm, hk⟩ := again
      exact (hfresh m hm).1 hk
    · intro h
      obtain ⟨⟨hseen, hfresh⟩, ⟨hnew, hnodup⟩, hrule, hrules⟩ := h
      exact ⟨⟨hseen, hrule⟩, fun m hm => ⟨fun hk => hnew ⟨m, hm, hk⟩, hfresh m hm⟩, hnodup, hrules⟩

/-- A tree breaks no rule when its keys are distinct and each tag admits its children. -/
theorem violations_eq_nil {root : Node} :
    root.violations = [] ↔ root.Distinct ∧ root.Conforms Tag.Admits := by
  rw [violations, violationsAfter_eq_nil]
  simp [Distinct, keys, Conforms, brokenRule?_eq_none]

/-! ## Replacing a node by one of its tag -/

section Replacing

variable {root t r new : Node} {keys : List Key}

theorem Conforms.replaceBelow {rule : Tag → List Tag → Prop} (hroot : root.Conforms rule)
    (ht : root.descend keys = some t) (tag : r.tag = t.tag)
    (h : replaceBelow r root keys = .ok new) : new.Conforms rule ↔ r.Conforms rule := by
  obtain ⟨pre, post, hold, hnew⟩ := outline_local.splice ht
  obtain ⟨-, hview⟩ := hnew r new tag h
  rw [conforms_iff_outline, hold] at hroot
  rw [conforms_iff_outline, conforms_iff_outline, hview]
  constructor
  · intro hall o ho
    exact hall o (by simp [ho])
  · intro hr o ho
    rw [List.append_assoc, List.mem_append, List.mem_append] at ho
    rcases ho with ho | ho | ho
    · exact hroot o (by simp [ho])
    · exact hr o ho
    · exact hroot o (by simp [ho])

/-- The keys of the new tree are those of the old one with the keys of the
replacement in the place of the keys of what is replaced. -/
theorem keys_replaceBelow (ht : root.descend keys = some t) :
    ∃ pre post, root.keys = pre ++ t.keys ++ post ∧
      ∀ r new, r.tag = t.tag → replaceBelow r root keys = .ok new →
        new.tag = root.tag ∧ new.keys = pre ++ r.keys ++ post := by
  obtain ⟨pre, post, hold, hnew⟩ := outline_local.splice ht
  refine ⟨pre.map (·.1), post.map (·.1), ?_, fun r new tag h => ?_⟩
  · rw [keys_eq_outline, hold, keys_eq_outline t]
    simp
  · obtain ⟨hr, hview⟩ := hnew r new tag h
    refine ⟨hr, ?_⟩
    rw [keys_eq_outline, hview, keys_eq_outline r]
    simp

theorem mem_keys_replaceBelow (ht : root.descend keys = some t) (tag : r.tag = t.tag)
    (h : replaceBelow r root keys = .ok new) {key : Key} (hk : key ∈ new.keys) :
    key ∈ root.keys ∨ key ∈ r.keys := by
  obtain ⟨pre, post, hold, hnew⟩ := keys_replaceBelow ht
  rw [(hnew r new tag h).2, List.append_assoc, List.mem_append, List.mem_append] at hk
  rw [hold]
  rcases hk with hk | hk | hk
  · simp [hk]
  · exact .inr hk
  · simp [hk]

/-- Keys stay distinct when those of the replacement are distinct and none of
them is used outside of what is replaced. -/
theorem Distinct.replaceBelow (hroot : root.Distinct) (ht : root.descend keys = some t)
    (tag : r.tag = t.tag) (h : Node.replaceBelow r root keys = .ok new) :
    new.Distinct ↔ r.Distinct ∧ ∀ key ∈ r.keys, key ∈ root.keys → key ∈ t.keys := by
  obtain ⟨pre, post, hold, hnew⟩ := keys_replaceBelow ht
  unfold Distinct at hroot ⊢
  rw [hold] at hroot
  rw [(hnew r new tag h).2, hold]
  simp only [List.append_assoc, List.nodup_append, List.mem_append] at hroot ⊢
  grind

end Replacing

/-! ## Replacing a node of a valid tree -/

/-- What a node is, apart from its children. -/
def content (n : Node) : Key × Tag × Payload := (n.key, n.tag, n.data)

theorem content_local : Local content fun _ _ => True where
  rebuilt _ _ := trivial
  view_eq _ _ _ _ _ _ _ := rfl

/-- A key that the tree uses is one of a subtree if its node belongs there. -/
theorem Distinct.key_mem_keys_iff {root t o : Node} (h : root.Distinct) (ht : t ∈ root.preorder)
    (ho : o ∈ root.preorder) : o.key ∈ t.keys ↔ o ∈ t.preorder := by
  constructor
  · intro hk
    obtain ⟨m, hm, same⟩ := List.mem_map.1 hk
    have mem : m ∈ root.preorder := mem_preorder_trans ht hm
    rwa [h.eq_of_key_eq ho mem same.symm]
  · exact key_mem_keys

/-- The keys of a tree may be used for a subtree if they are not used beside it. -/
theorem Distinct.keys_free_iff {root t : Node} (h : root.Distinct) (ht : t ∈ root.preorder)
    (r : Node) : (∀ key ∈ r.keys, key ∈ root.keys → key ∈ t.keys) ↔
      ∀ m ∈ r.preorder, ∀ o ∈ root.preorder, o ∉ t.preorder → m.key ≠ o.key := by
  constructor
  · intro free m hm o ho outside same
    refine outside ((h.key_mem_keys_iff ht ho).1 ?_)
    rw [← same]
    exact free m.key (key_mem_keys hm) (same ▸ key_mem_keys ho)
  · intro free key hk hroot
    obtain ⟨m, hm, rfl⟩ := List.mem_map.1 hk
    obtain ⟨o, ho, same⟩ := List.mem_map.1 hroot
    by_contra outside
    refine free m hm o ho (fun inside => outside ?_) same.symm
    rw [← same]
    exact key_mem_keys inside

/-- Replacing a node exchanges one stretch of the pre-order for that of the
replacement. A valid tree stays valid under a replacement of the same tag exactly
if the replacement is valid by itself and no key of it is used outside of what it
replaces. -/
theorem violations_replaceAt_iff {root t : Node} {path : List Key}
    (located : root.locate path = .ok t) :
    ∃ pre post, root.preorder.map content = pre ++ t.preorder.map content ++ post ∧
      ∀ r, ∃ new, root.replaceAt path r = .ok new ∧
        new.preorder.map content = pre ++ r.preorder.map content ++ post ∧
        (root.violations = [] → r.tag = t.tag →
          (new.violations = [] ↔ r.violations = [] ∧
            ∀ m ∈ r.preorder, ∀ o ∈ root.preorder, o ∉ t.preorder → m.key ≠ o.key)) := by
  obtain ⟨nonempty, ht⟩ := locate_eq_ok.1 located
  obtain ⟨pre, post, old, spliced⟩ := content_local.splice ht
  refine ⟨pre, post, old, fun r => ?_⟩
  obtain ⟨new, hr⟩ := exists_replaceBelow ht r
  refine ⟨new, replaceAt_eq_ok.2 ⟨nonempty, hr⟩, (spliced r new trivial hr).2, ?_⟩
  intro valid tag
  obtain ⟨distinct, conforms⟩ := violations_eq_nil.1 valid
  rw [violations_eq_nil, violations_eq_nil, distinct.replaceBelow ht tag hr,
    conforms.replaceBelow ht tag hr, distinct.keys_free_iff (descend_mem ht)]
  tauto

def operand (name : String) : Node := { key := ⟨name⟩, tag := .var }

def condition (left right : String) : Node :=
  { key := ⟨"on"⟩, tag := .joinOn, kids := some [operand left, operand right] }

def joined : Node :=
  { key := ⟨"join"⟩, tag := .join, kids := some [
      { key := ⟨"table"⟩, tag := .table }, condition "left" "right"] }

/-- The condition of a join may use its own keys again, but not that of the table. -/
theorem joined_conditions :
    joined.violations = [] ∧
    (∃ new, joined.replaceAt [⟨"join"⟩, ⟨"on"⟩] (condition "right" "left") = .ok new ∧
      new.violations = []) ∧
    ∃ new, joined.replaceAt [⟨"join"⟩, ⟨"on"⟩] (condition "left" "table") = .ok new ∧
      new.violations ≠ [] := by
  have valid : joined.violations = [] := by decide
  have located : joined.locate [⟨"join"⟩, ⟨"on"⟩] = .ok (condition "left" "right") := by decide
  obtain ⟨_, _, _, replaced⟩ := violations_replaceAt_iff located
  obtain ⟨swapped, done, -, criterion⟩ := replaced (condition "right" "left")
  obtain ⟨clashing, done', -, criterion'⟩ := replaced (condition "left" "table")
  refine ⟨valid, ⟨swapped, done, ?_⟩, clashing, done', ?_⟩
  · exact (criterion valid rfl).2 ⟨by decide, by decide⟩
  · rw [ne_eq, criterion' valid rfl]
    decide

end Node

end QueryTree
