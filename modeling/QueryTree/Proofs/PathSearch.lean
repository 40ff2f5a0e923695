import QueryTree.Proofs.PathScopes

/-! Searching for a key and going down by keys. The search walks the tree in
pre-order and answers with the way down to the first node that has the key; going
down takes the first child with the next key at each step. On the way back the
first node is found again where no two siblings share a key, and where no two
nodes do, every path is the one that the search gives. -/

namespace QueryTree

/-- The nodes that come before the child in the pre-order of the parent. -/
def Link.passed (link : Link) : List Node := link.parent :: link.before.flatMap Node.preorder

/-- Nothing but the end of the links stands after the nodes passed on the way and before
what is below it. -/
theorem Lineage.preorder_eq {n m : Node} {links : List Link} (h : Lineage n links m) :
    ∃ after, n.preorder = links.flatMap Link.passed ++ m.preorder ++ after := by
  induction h with
  | self => exact ⟨[], by simp⟩
  | @step n c m before after links children _ ih =>
    obtain ⟨rest, ih⟩ := ih
    refine ⟨rest ++ after.flatMap Node.preorder, ?_⟩
    rw [Node.preorder_eq, children]
    simp [ih, Link.passed]

namespace Node

variable {n m : Node} {key : Key} {links : List Link}

/-! ## Searching -/

theorem pathTo_eq_none : pathTo key n = none ↔ key ∉ n.keys := by
  induction n using children_induction with
  | step n ih =>
    rw [pathTo_eq, keys_eq]
    by_cases here : n.key = key
    · simp [here]
    · have other : key ≠ n.key := fun e => here e.symm
      rw [if_neg here, Option.map_eq_none_iff, List.findSome?_eq_none_iff, List.mem_cons,
        List.mem_flatMap]
      simp only [other, false_or, not_exists, not_and]
      exact forall₂_congr fun c hc => ih c hc

/-- The links lead to the first node in pre-order that has the key. -/
structure LeadsToFirst (key : Key) (n : Node) (links : List Link) (m : Node) : Prop where
  lineage : Lineage n links m
  key_eq : m.key = key
  passed : ∀ o ∈ links.flatMap Link.passed, o.key ≠ key

/-- The first node below a node with another key is the first one below the first child
that has the key in its tree. -/
theorem leadsToFirst_step {c : Node} {before after : List Node}
    (children : n.children = before ++ c :: after) :
    LeadsToFirst key n (⟨n, before, c⟩ :: links) m ↔
      n.key ≠ key ∧ (∀ b ∈ before, key ∉ b.keys) ∧ LeadsToFirst key c links m := by
  have split : (∀ o ∈ (⟨n, before, c⟩ :: links).flatMap Link.passed, o.key ≠ key) ↔
      n.key ≠ key ∧ (∀ b ∈ before, key ∉ b.keys) ∧
        ∀ o ∈ links.flatMap Link.passed, o.key ≠ key := by
    have below (b : Node) : (∀ o ∈ b.preorder, o.key ≠ key) ↔ key ∉ b.keys := by
      simp [keys]
    rw [List.flatMap_cons, Link.passed]
    simp only [List.cons_append, List.forall_mem_cons, List.forall_mem_append,
      List.forall_mem_flatMap, below]
  constructor
  · intro leads
    obtain ⟨other, missed, passed⟩ := split.1 leads.passed
    cases leads.lineage with
    | step _ rest => exact ⟨other, missed, rest, leads.key_eq, passed⟩
  · intro h
    obtain ⟨other, missed, leads⟩ := h
    exact ⟨.step children leads.lineage, leads.key_eq, split.2 ⟨other, missed, leads.passed⟩⟩

theorem LeadsToFirst.pathTo_eq (leads : LeadsToFirst key n links m) :
    pathTo key n = some (n.key :: links.map (·.child.key)) := by
  induction links generalizing n with
  | nil =>
    cases leads.lineage
    rw [pathTo_eq, if_pos leads.key_eq]
    rfl
  | cons link links ih =>
    cases leads.lineage with
    | @step _ c _ before after _ children rest =>
      obtain ⟨other, missed, inner⟩ := (leadsToFirst_step children).1 leads
      have found : n.children.findSome? (pathTo key) =
          some (c.key :: links.map (·.child.key)) := by
        refine List.findSome?_eq_some_iff.2 ⟨before, c, after, children, ih inner, fun b hb => ?_⟩
        exact pathTo_eq_none.2 (missed b hb)
      rw [pathTo_eq, if_neg other, found]
      rfl

/-- The search finds the way to the first node that has the key. -/
theorem pathTo_eq_some {path : List Key} :
    pathTo key n = some path ↔
      ∃ links m, LeadsToFirst key n links m ∧ path = n.key :: links.map (·.child.key) := by
  constructor
  · intro found
    induction n using children_induction generalizing path with
    | step n ih =>
      rw [pathTo_eq] at found
      split at found
      · rename_i here
        exact ⟨[], n, ⟨.self n, here, by simp⟩, (Option.some.inj found).symm⟩
      · rename_i other
        obtain ⟨rest, below, rfl⟩ := Option.map_eq_some_iff.1 found
        -- The search comes back from the trees of the children before without an answer.
        obtain ⟨before, c, after, children, inner, missed⟩ := List.findSome?_eq_some_iff.1 below
        obtain ⟨links, m, leads, rfl⟩ := ih c (by simp [children]) inner
        refine ⟨⟨n, before, c⟩ :: links, m, (leadsToFirst_step children).2 ⟨other, ?_, leads⟩, rfl⟩
        exact fun b hb => pathTo_eq_none.1 (missed b hb)
  · intro h
    obtain ⟨links, m, leads, rfl⟩ := h
    exact leads.pathTo_eq

/-! ## Going down -/

/-- No two siblings share a key, anywhere in the tree. -/
def SiblingsDistinct (n : Node) : Prop := ∀ m ∈ n.preorder, (m.children.map (·.key)).Nodup

instance (n : Node) : Decidable n.SiblingsDistinct :=
  inferInstanceAs (Decidable (∀ m ∈ n.preorder, (m.children.map (·.key)).Nodup))

theorem Distinct.siblings (h : n.Distinct) : n.SiblingsDistinct := fun _ hm =>
  (h.of_mem hm).nodup_child_keys

theorem SiblingsDistinct.of_child {c : Node} (h : n.SiblingsDistinct) (hc : c ∈ n.children) :
    c.SiblingsDistinct := fun m hm =>
  h m (mem_preorder_iff.2 (.inr ⟨c, hc, hm⟩))

/-- Where siblings have keys of their own, the keys on a way down lead along it. -/
theorem SiblingsDistinct.along (h : n.SiblingsDistinct) (lineage : Lineage n links m) :
    n.linksAlong (links.map (·.child.key)) = some links ∧
      n.descend (links.map (·.child.key)) = some m := by
  induction lineage with
  | self => exact ⟨rfl, rfl⟩
  | @step n c m before after links children rest ih =>
    have hc : c ∈ n.children := by simp [children]
    obtain ⟨along, reached⟩ := ih (h.of_child hc)
    have first : ∀ b ∈ before, b.key ≠ c.key := by
      have nodup : (n.children.map (·.key)).Nodup := h n n.self_mem_preorder
      rw [children, List.map_append, List.nodup_append] at nodup
      exact fun b hb => nodup.2.2 _ (List.mem_map_of_mem hb) _ (by simp)
    rw [List.map_cons]
    exact ⟨linksAlong_cons_eq_some.2 ⟨before, c, after, links, children, rfl, first, along, rfl⟩,
      descend_cons_eq_some.2 ⟨c, child_eq_of_split children first, reached⟩⟩

/-- Where no key is used twice, every way down leads to the first node with its key. -/
theorem Distinct.leadsToFirst (h : n.Distinct) (lineage : Lineage n links m) :
    LeadsToFirst m.key n links m := by
  refine ⟨lineage, rfl, fun o ho same => ?_⟩
  obtain ⟨after, split⟩ := lineage.preorder_eq
  unfold Distinct keys at h
  rw [split, List.map_append, List.map_append, List.append_assoc, List.nodup_append] at h
  refine h.2.2 o.key (List.mem_map_of_mem ho) m.key ?_ same
  exact List.mem_append_left _ (List.mem_map_of_mem m.self_mem_preorder)

/-- The search succeeds exactly for the keys of the tree, with the keys on the way to
the first node in pre-order that has the key. Where no two siblings share a key, going
down by these keys takes the same way to that node. Where no two nodes do, every path
is found again by searching for the key of the node it leads to. -/
theorem pathTo_inverts_nodeAt (root : Node) :
    (∀ key, (∃ path, pathTo key root = some path) ↔ ∃ n ∈ root.preorder, n.key = key) ∧
    (∀ key path, pathTo key root = some path → ∃ links first after,
      Lineage root links first ∧ path = root.key :: links.map (·.child.key) ∧
      root.preorder = links.flatMap Link.passed ++ first :: after ∧
      first.key = key ∧ (∀ n ∈ links.flatMap Link.passed, n.key ≠ key) ∧
      (root.SiblingsDistinct → root.linksAlong path.tail = some links ∧
        root.nodeAt path = some first ∧ root.locate path = .ok first)) ∧
    (root.Distinct → root.SiblingsDistinct ∧
      ∀ path n, root.nodeAt path = some n → pathTo n.key root = some path) := by
  refine ⟨fun key => ?_, fun key path found => ?_, fun distinct => ⟨distinct.siblings, ?_⟩⟩
  · rw [← Option.isSome_iff_exists, ← Option.ne_none_iff_isSome, ne_eq, pathTo_eq_none,
      not_not, keys, List.mem_map]
  · obtain ⟨links, first, leads, rfl⟩ := pathTo_eq_some.1 found
    obtain ⟨after, split⟩ := leads.lineage.preorder_eq
    rw [preorder_eq first, List.append_assoc, List.cons_append] at split
    refine ⟨links, first, _, leads.lineage, rfl, split, leads.key_eq, leads.passed,
      fun siblings => ?_⟩
    obtain ⟨along, reached⟩ := siblings.along leads.lineage
    exact ⟨along, nodeAt_eq_some.2 ⟨_, rfl, reached⟩,
      locate_eq_ok.2 ⟨List.cons_ne_nil _ _, reached⟩⟩
  · intro path n found
    obtain ⟨keys, rfl, reached⟩ := nodeAt_eq_some.1 found
    obtain ⟨links, -, lineage, rfl⟩ := exists_linksAlong reached
    exact (distinct.leadsToFirst lineage).pathTo_eq

/-- Two columns, of which the second has the key of the variable of the first. -/
def daysTwice : Node :=
  { key := ⟨"columns"⟩, tag := .columns, kids := some [
      { key := ⟨"seen"⟩, tag := .column, kids := some [{ key := ⟨"day"⟩, tag := .var }] },
      { key := ⟨"day"⟩, tag := .column }] }

/-- A repeated key leads to its first node and back; a key that is not repeated has one path. -/
theorem daysTwice_searched :
    daysTwice.SiblingsDistinct ∧
    (∃ n, n.key = ⟨"day"⟩ ∧ daysTwice.nodeAt [⟨"columns"⟩, ⟨"seen"⟩, ⟨"day"⟩] = some n ∧
      daysTwice.locate [⟨"columns"⟩, ⟨"seen"⟩, ⟨"day"⟩] = .ok n) ∧
    recentDays.Distinct ∧
    ∃ n, recentDays.nodeAt [⟨"query"⟩, ⟨"outer"⟩, ⟨"outer.from"⟩] = some n ∧
      pathTo n.key recentDays = some [⟨"query"⟩, ⟨"outer"⟩, ⟨"outer.from"⟩] := by
  have siblings : daysTwice.SiblingsDistinct := by decide
  have distinct : recentDays.Distinct := by decide
  have found : pathTo ⟨"day"⟩ daysTwice = some [⟨"columns"⟩, ⟨"seen"⟩, ⟨"day"⟩] := by decide
  obtain ⟨-, ways, -⟩ := pathTo_inverts_nodeAt daysTwice
  obtain ⟨-, -, unique⟩ := pathTo_inverts_nodeAt recentDays
  obtain ⟨_, n, _, -, -, -, key, -, back⟩ := ways _ _ found
  obtain ⟨-, reached, located⟩ := back siblings
  refine ⟨siblings, ⟨n, key, reached, located⟩, distinct, _, rfl, ?_⟩
  exact (unique distinct).2 _ _ rfl

end Node

end QueryTree
