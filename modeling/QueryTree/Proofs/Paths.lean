import QueryTree.Edit
import Mathlib.Data.List.Nodup
import Mathlib.Data.List.Pairwise

/-! Where the nodes of a tree are found. Every node below a node belongs to its
pre-order, and each way down by keys takes the first child with the next key.
In a tree that uses no key twice every node is found by keys, and only at its
own place. -/

namespace QueryTree.Node

/-! ## Pre-order -/

/-- The keys of all nodes, in pre-order. -/
def keys (n : Node) : List Key := n.preorder.map (·.key)

/-- No key is used by two nodes of the tree. -/
def Distinct (n : Node) : Prop := n.keys.Nodup

instance (n : Node) : Decidable n.Distinct := inferInstanceAs (Decidable n.keys.Nodup)

theorem keys_eq (n : Node) : n.keys = n.key :: n.children.flatMap keys := by
  rw [keys, preorder_eq, List.map_cons, List.map_flatMap]
  rfl

theorem mem_preorder_iff {n m : Node} :
    m ∈ n.preorder ↔ m = n ∨ ∃ c ∈ n.children, m ∈ c.preorder := by
  rw [preorder_eq, List.mem_cons, List.mem_flatMap]

theorem self_mem_preorder (n : Node) : n ∈ n.preorder := mem_preorder_iff.2 (.inl rfl)

theorem child_mem_preorder {n c : Node} (h : c ∈ n.children) : c ∈ n.preorder :=
  mem_preorder_iff.2 (.inr ⟨c, h, c.self_mem_preorder⟩)

theorem preorder_infix_of_mem_children {n c : Node} (h : c ∈ n.children) :
    c.preorder <:+: n.preorder := by
  obtain ⟨before, after, hs⟩ := List.append_of_mem h
  refine ⟨n :: before.flatMap preorder, after.flatMap preorder, ?_⟩
  rw [preorder_eq n, hs]
  simp

/-- The nodes of a subtree stand together in the pre-order. -/
theorem preorder_infix_of_mem {m : Node} (n : Node) (h : m ∈ n.preorder) :
    m.preorder <:+: n.preorder := by
  induction n using children_induction with
  | step n ih =>
    rcases mem_preorder_iff.1 h with rfl | ⟨c, hc, hm⟩
    · exact List.infix_rfl
    · exact (ih c hc hm).trans (preorder_infix_of_mem_children hc)

theorem mem_preorder_trans {n m l : Node} (hm : m ∈ n.preorder) (hl : l ∈ m.preorder) :
    l ∈ n.preorder := (preorder_infix_of_mem n hm).subset hl

theorem key_mem_keys {n m : Node} (h : m ∈ n.preorder) : m.key ∈ n.keys :=
  List.mem_map_of_mem h

theorem keys_subset {n m : Node} (h : m ∈ n.preorder) : m.keys ⊆ n.keys :=
  List.map_subset _ (preorder_infix_of_mem n h).subset

theorem Distinct.of_mem {n m : Node} (hn : n.Distinct) (h : m ∈ n.preorder) : m.Distinct :=
  hn.sublist ((preorder_infix_of_mem n h).sublist.map _)

theorem Distinct.eq_of_key_eq {n a b : Node} (hn : n.Distinct) (ha : a ∈ n.preorder)
    (hb : b ∈ n.preorder) (h : a.key = b.key) : a = b :=
  List.inj_on_of_nodup_map hn ha hb h

/-- No node is below itself. -/
theorem Distinct.not_mem_below {n c : Node} (hn : n.Distinct) (hc : c ∈ n.children) :
    n ∉ c.preorder := by
  intro hm
  unfold Distinct at hn
  rw [keys_eq, List.nodup_cons] at hn
  exact hn.1 (List.mem_flatMap.2 ⟨c, hc, key_mem_keys hm⟩)

/-- The subtrees of two children have no key in common. -/
theorem Distinct.disjoint_children {n : Node} (hn : n.Distinct) :
    n.children.Pairwise fun c d => c.keys.Disjoint d.keys := by
  unfold Distinct at hn
  rw [keys_eq, List.nodup_cons, List.nodup_flatMap] at hn
  exact hn.2.2

theorem Distinct.nodup_children {n : Node} (hn : n.Distinct) : n.children.Nodup := by
  refine hn.disjoint_children.imp fun {c d} disjoint same => ?_
  subst same
  exact disjoint (key_mem_keys c.self_mem_preorder) (key_mem_keys c.self_mem_preorder)

theorem Distinct.nodup_child_keys {n : Node} (hn : n.Distinct) :
    (n.children.map (·.key)).Nodup := by
  refine hn.nodup_children.map_on fun c hc d hd same => ?_
  exact hn.eq_of_key_eq (child_mem_preorder hc) (child_mem_preorder hd) same

theorem key_ne_of_split {n c : Node} {before after : List Node}
    (split : n.children = before ++ c :: after) (distinct : (n.children.map (·.key)).Nodup) :
    ∀ s ∈ before ++ after, s.key ≠ c.key := by
  intro s hs same
  rw [split, List.map_append, List.map_cons, List.nodup_middle, List.nodup_cons,
    ← List.map_append] at distinct
  exact distinct.1 (same ▸ List.mem_map_of_mem hs)

/-- Removing a child that has its key to itself takes out this child only. -/
theorem removeChild_split {n c : Node} {before after : List Node}
    (split : n.children = before ++ c :: after) (apart : ∀ s ∈ before ++ after, s.key ≠ c.key) :
    n.removeChild c.key = n.withChildren (before ++ after) := by
  have others : (before ++ after).filter (·.key ≠ c.key) = before ++ after :=
    List.filter_eq_self.2 fun s hs => by simpa using apart s hs
  rw [removeChild, split, List.filter_append, List.filter_cons_of_neg (by simp),
    ← List.filter_append, others]

/-- A node is below one child at most. -/
theorem Distinct.child_unique {n c d m : Node} (hn : n.Distinct) (hc : c ∈ n.children)
    (hd : d ∈ n.children) (hcm : m ∈ c.preorder) (hdm : m ∈ d.preorder) : c = d := by
  by_contra different
  have symm : Std.Symm fun c d : Node => c.keys.Disjoint d.keys :=
    ⟨fun _ _ h => List.disjoint_symm h⟩
  have disjoint : c.keys.Disjoint d.keys := hn.disjoint_children.forall hc hd different
  exact disjoint (key_mem_keys hcm) (key_mem_keys hdm)

/-- No node has two parents. -/
theorem Distinct.parent_unique {root a b c : Node} (h : root.Distinct) (ha : a ∈ root.preorder)
    (hb : b ∈ root.preorder) (hca : c ∈ a.children) (hcb : c ∈ b.children) : a = b := by
  induction root using children_induction with
  | step root ih =>
    -- A child of the root that is also a child of a node further down would be below itself.
    have once {m : Node} (hc : c ∈ root.children) (hm : m ∈ root.preorder)
        (hcm : c ∈ m.children) : root = m := by
      rcases mem_preorder_iff.1 hm with rfl | ⟨d, hd, hmd⟩
      · rfl
      · have below : c ∈ d.preorder := mem_preorder_trans hmd (child_mem_preorder hcm)
        obtain rfl := h.child_unique hc hd c.self_mem_preorder below
        exact absurd hmd ((h.of_mem hm).not_mem_below hcm)
    rcases mem_preorder_iff.1 ha with rfl | ⟨d, hd, had⟩
    · exact once hca hb hcb
    · rcases mem_preorder_iff.1 hb with rfl | ⟨e, he, hbe⟩
      · exact (once hcb ha hca).symm
      · have inD : c ∈ d.preorder := mem_preorder_trans had (child_mem_preorder hca)
        have inE : c ∈ e.preorder := mem_preorder_trans hbe (child_mem_preorder hcb)
        obtain rfl := h.child_unique hd he inD inE
        exact ih d hd (h.of_mem (child_mem_preorder hd)) had hbe

/-- A node with a child has a list of children, and is made of it. -/
theorem withChildren_children {n : Node} (h : n.children ≠ []) : n.withChildren n.children = n := by
  obtain ⟨_, _, _, _ | kids⟩ := n
  · exact absurd rfl h
  · rfl

/-! ## Children by key -/

/-- The child with a key has siblings before it that have other keys, and any
siblings after it. -/
theorem child_split {n c : Node} {key : Key} (h : n.child key = some c) :
    ∃ before after, n.children = before ++ c :: after ∧ c.key = key ∧
      ∀ b ∈ before, b.key ≠ key := by
  obtain ⟨hk, before, after, hs, hb⟩ := List.find?_eq_some_iff_append.1 h
  refine ⟨before, after, hs, by simpa using hk, fun b hm => ?_⟩
  simpa using hb b hm

theorem child_eq_of_split {n c : Node} {before after : List Node}
    (hs : n.children = before ++ c :: after) (hb : ∀ b ∈ before, b.key ≠ c.key) :
    n.child c.key = some c := by
  refine List.find?_eq_some_iff_append.2 ⟨by simp, before, after, hs, fun b hm => ?_⟩
  simpa using hb b hm

/-- The siblings before the first child with a key are those up to that key. -/
theorem takeWhile_key_ne {n c : Node} {key : Key} {before after : List Node}
    (hs : n.children = before ++ c :: after) (hk : c.key = key) (hb : ∀ b ∈ before, b.key ≠ key) :
    n.children.takeWhile (·.key ≠ key) = before := by
  rw [hs, List.takeWhile_append_of_pos (by simpa using hb),
    List.takeWhile_cons_of_neg (by simp [hk]), List.append_nil]

theorem child_eq_none {n : Node} {key : Key} (h : ∀ c ∈ n.children, c.key ≠ key) :
    n.child key = none := by
  refine List.find?_eq_none.2 fun c hc => ?_
  simpa using h c hc

theorem child_mem {n c : Node} {key : Key} (h : n.child key = some c) : c ∈ n.children :=
  List.mem_of_find?_eq_some h

theorem child_key {n c : Node} {key : Key} (h : n.child key = some c) : c.key = key := by
  simpa using List.find?_some h

theorem Distinct.child_eq {n c : Node} (hn : n.Distinct) (hc : c ∈ n.children) :
    n.child c.key = some c := by
  cases h : n.child c.key with
  | none => simpa using List.find?_eq_none.1 h c hc
  | some first =>
    rw [hn.eq_of_key_eq (child_mem_preorder (child_mem h)) (child_mem_preorder hc) (child_key h)]

/-! ## Paths -/

@[simp] theorem descend_nil (n : Node) : n.descend [] = some n := rfl

theorem descend_cons (n : Node) (key : Key) (keys : List Key) :
    n.descend (key :: keys) = (n.child key).bind (descend · keys) := rfl

theorem descend_cons_eq_some {n m : Node} {key : Key} {keys : List Key} :
    n.descend (key :: keys) = some m ↔ ∃ c, n.child key = some c ∧ c.descend keys = some m := by
  rw [descend_cons, Option.bind_eq_some_iff]

theorem descend_append (n : Node) (front back : List Key) :
    n.descend (front ++ back) = (n.descend front).bind (descend · back) := by
  induction front generalizing n with
  | nil => rfl
  | cons key front ih =>
    rw [List.cons_append, descend_cons, descend_cons, Option.bind_assoc]
    exact Option.bind_congr fun c _ => ih c

theorem descend_mem {n m : Node} {keys : List Key} (h : n.descend keys = some m) :
    m ∈ n.preorder := by
  induction keys generalizing n with
  | nil =>
    obtain rfl := Option.some.inj h
    exact self_mem_preorder n
  | cons key keys ih =>
    obtain ⟨c, hc, hm⟩ := descend_cons_eq_some.1 h
    exact mem_preorder_iff.2 (.inr ⟨c, child_mem hc, ih hm⟩)

/-- Where no key is used twice, every node is found by keys. -/
theorem Distinct.exists_descend {n m : Node} (hn : n.Distinct) (h : m ∈ n.preorder) :
    ∃ keys, n.descend keys = some m := by
  induction n using children_induction with
  | step n ih =>
    rcases mem_preorder_iff.1 h with rfl | ⟨c, hc, hm⟩
    · exact ⟨[], rfl⟩
    · obtain ⟨keys, hk⟩ := ih c hc (hn.of_mem (child_mem_preorder hc)) hm
      exact ⟨c.key :: keys, descend_cons_eq_some.2 ⟨c, hn.child_eq hc, hk⟩⟩

theorem nodeAt_eq_some {root n : Node} {path : List Key} :
    root.nodeAt path = some n ↔ ∃ keys, path = root.key :: keys ∧ root.descend keys = some n := by
  cases path with
  | nil => simp [nodeAt]
  | cons key keys =>
    rw [nodeAt]
    split
    · rename_i h
      simp [h]
    · rename_i h
      simp [h]

/-- Locating a node fails where going down by keys finds nothing. -/
theorem locateBelow_eq_ok {n m : Node} {keys : List Key} :
    n.locateBelow keys = .ok m ↔ n.descend keys = some m := by
  induction keys generalizing n with
  | nil => simp [locateBelow]
  | cons key keys ih =>
    rw [locateBelow, descend_cons]
    cases n.child key with
    | none => simp
    | some c => simpa using ih

theorem locate_eq_ok {root n : Node} {path : List Key} :
    root.locate path = .ok n ↔ path ≠ [] ∧ root.descend path.tail = some n := by
  cases path with
  | nil => simp [locate]
  | cons key keys => simp [locate, locateBelow_eq_ok]

end QueryTree.Node
