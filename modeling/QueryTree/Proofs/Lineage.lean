import QueryTree.Proofs.ScopePasses

/-! The scope of a node, read off the way down to it. A lineage lists the links from
the root to a node by position, so it is there for every node, whatever the keys.
Each link may bring own tables or open an offer of columns, and of either kind
the last one that does decides. -/

namespace QueryTree

/-- One step from a node to a child, with the siblings before the child. -/
structure Link where
  parent : Node
  before : List Node
  child : Node

namespace Link

/-- The own tables that a link brings: those of a query for its selects, and
those of the CTEs before a child among CTEs. -/
def ownSchema? (link : Link) : Option Schema :=
  if link.parent.tag = .query ∧ link.child.tag = .select then some link.parent.ownSchema
  else if link.parent.tag = .ctes then some ⟨Node.cteTables link.before⟩
  else none

/-- The link leaves a select through a child that reads its columns. -/
def Opens (link : Link) : Prop :=
  link.parent.tag = .select ∧
    (link.child.tag = .columns ∨ link.child.tag = .fromClause ∨ link.child.tag = .whereClause)

instance (link : Link) : Decidable link.Opens := inferInstanceAs (Decidable (_ ∧ _))

/-- The link leads from a query to one of its selects. -/
def EntersSelect (link : Link) : Prop := link.parent.tag = .query ∧ link.child.tag = .select

/-- The link leads from a list of CTEs to one of its children. -/
def EntersCte (link : Link) : Prop := link.parent.tag = .ctes

/-- The link brings own tables into force. -/
def Defines (link : Link) : Prop := link.EntersSelect ∨ link.EntersCte

instance (link : Link) : Decidable link.EntersSelect := inferInstanceAs (Decidable (_ ∧ _))

instance (link : Link) : Decidable link.EntersCte := inferInstanceAs (Decidable (_ = _))

instance (link : Link) : Decidable link.Defines := inferInstanceAs (Decidable (_ ∨ _))

variable {link : Link}

theorem ownSchema?_of_entersSelect (h : link.EntersSelect) :
    link.ownSchema? = some link.parent.ownSchema := by
  obtain ⟨query, select⟩ := h
  rw [ownSchema?, if_pos ⟨query, select⟩]

theorem ownSchema?_of_entersCte (h : link.EntersCte) :
    link.ownSchema? = some ⟨Node.cteTables link.before⟩ := by
  have ctes : link.parent.tag = .ctes := h
  simp [ownSchema?, ctes]

theorem ownSchema?_eq_none (h : ¬ link.Defines) : link.ownSchema? = none := by
  obtain ⟨noSelect, noCte⟩ := not_or.1 h
  unfold EntersSelect at noSelect
  unfold EntersCte at noCte
  rw [ownSchema?, if_neg noSelect, if_neg noCte]

end Link

/-- The scope at the end of a link. -/
def Scope.enter (scope : Scope) (link : Link) : Scope where
  schema := scope.schema
  localSchema := link.ownSchema?.getD scope.localSchema
  offer := if link.Opens then link.parent.offered scope else scope.offer

/-- The links lead from the first node down to the second. -/
inductive Lineage : Node → List Link → Node → Prop
  | self (n : Node) : Lineage n [] n
  | step {n c m : Node} {before after : List Node} {links : List Link}
      (children : n.children = before ++ c :: after) (rest : Lineage c links m) :
      Lineage n (⟨n, before, c⟩ :: links) m

namespace Lineage

variable {n m l : Node} {links more : List Link}

theorem append (h : Lineage n links m) (rest : Lineage m more l) : Lineage n (links ++ more) l := by
  induction h with
  | self => exact rest
  | step children _ ih => exact .step children (ih rest)

theorem exists_of_mem (h : m ∈ n.preorder) : ∃ links, Lineage n links m := by
  induction n using Node.children_induction with
  | step n ih =>
    rcases Node.mem_preorder_iff.1 h with rfl | ⟨c, hc, hm⟩
    · exact ⟨[], .self m⟩
    · obtain ⟨before, after, children⟩ := List.append_of_mem hc
      obtain ⟨links, rest⟩ := ih c hc hm
      exact ⟨_, .step children rest⟩

end Lineage

namespace Node

/-! ## The children of one node -/

/-- The links to some children of a node that come after others. -/
def linksAfter (n : Node) (before : List Node) : List Node → List Link
  | [] => []
  | c :: cs => ⟨n, before, c⟩ :: linksAfter n (before ++ [c]) cs

/-- The links to all children. -/
def links (n : Node) : List Link := n.linksAfter [] n.children

theorem mem_linksAfter {n : Node} {before cs : List Node} {link : Link} :
    link ∈ n.linksAfter before cs ↔
      ∃ earlier c after, cs = earlier ++ c :: after ∧ link = ⟨n, before ++ earlier, c⟩ := by
  induction cs generalizing before with
  | nil => simp [linksAfter]
  | cons c cs ih =>
    rw [linksAfter, List.mem_cons, ih]
    constructor
    · intro h
      rcases h with rfl | ⟨earlier, d, after, rfl, rfl⟩
      · exact ⟨[], c, cs, rfl, by simp⟩
      · exact ⟨c :: earlier, d, after, rfl, by simp⟩
    · intro h
      obtain ⟨earlier, d, after, hs, rfl⟩ := h
      cases earlier with
      | nil =>
        obtain ⟨rfl, rfl⟩ := List.cons.inj hs
        exact .inl (by simp)
      | cons e earlier =>
        obtain ⟨rfl, rfl⟩ := List.cons.inj hs
        exact .inr ⟨earlier, d, after, rfl, by simp⟩

theorem mem_links {n : Node} {link : Link} :
    link ∈ n.links ↔
      ∃ before c after, n.children = before ++ c :: after ∧ link = ⟨n, before, c⟩ := by
  rw [links, mem_linksAfter]
  simp

theorem cteTables_append (before after : List Node) :
    cteTables (before ++ after) = cteTables before ++ cteTables after := by
  simp [cteTables]

/-- Where siblings do not matter, each child gets a scope by itself. -/
theorem map_linksAfter {n : Node} {scope : Scope} {inner : Node → Scope}
    (h : ∀ before c, scope.enter ⟨n, before, c⟩ = inner c) (before cs : List Node) :
    (n.linksAfter before cs).map (fun link => (link.child, scope.enter link)) =
      cs.zip (cs.map inner) := by
  induction cs generalizing before with
  | nil => rfl
  | cons c cs ih => simp [linksAfter, h, ih]

theorem map_linksAfter_ctes {n : Node} (h : n.tag = .ctes) (scope : Scope)
    (before cs : List Node) :
    (n.linksAfter before cs).map (fun link => (link.child, scope.enter link)) =
      cs.zip (cteScopes scope (cteTables before) cs) := by
  induction cs generalizing before with
  | nil => rfl
  | cons c cs ih =>
    have entered : scope.enter ⟨n, before, c⟩ = scope.withLocalSchema ⟨cteTables before⟩ := by
      simp [Scope.enter, Link.ownSchema?, Link.Opens, Scope.withLocalSchema, h]
    rw [linksAfter, List.map_cons, ih, cteTables_append, entered]
    rfl

/-- Every child gets the scope at the end of the link to it. -/
theorem scopedChildren_eq (scope : Scope) (n : Node) :
    n.scopedChildren scope = n.links.map fun link => (link.child, scope.enter link) := by
  rw [scopedChildren, childScopes, links]
  split
  · rename_i tag
    refine (map_linksAfter (fun before c => ?_) [] n.children).symm
    by_cases hc : c.tag = .select
    · simp [Scope.enter, Link.ownSchema?, Link.Opens, Scope.withLocalSchema, tag, hc]
    · simp [Scope.enter, Link.ownSchema?, Link.Opens, tag, hc]
  · rename_i tag
    exact (map_linksAfter_ctes tag scope [] n.children).symm
  · rename_i tag
    refine (map_linksAfter (fun before c => ?_) [] n.children).symm
    by_cases hc : c.tag = .columns ∨ c.tag = .fromClause ∨ c.tag = .whereClause
    · simp [Scope.enter, Link.ownSchema?, Link.Opens, Scope.withOffer, tag, hc]
    · simp [Scope.enter, Link.ownSchema?, Link.Opens, tag, hc]
  · rename_i query ctes select
    refine (map_linksAfter (fun before c => ?_) [] n.children).symm
    have noQuery : n.tag ≠ .query := query
    have noCtes : n.tag ≠ .ctes := ctes
    have noSelect : n.tag ≠ .select := select
    simp [Scope.enter, Link.ownSchema?, Link.Opens, noQuery, noCtes, noSelect]

theorem linksAfter_append (n : Node) (before xs ys : List Node) :
    n.linksAfter before (xs ++ ys) = n.linksAfter before xs ++ n.linksAfter (before ++ xs) ys := by
  induction xs generalizing before with
  | nil => simp [linksAfter]
  | cons x xs ih => simp [linksAfter, ih]

/-- One step along a path, at a child whose place is known. -/
theorem scopeBelow_split {n c : Node} {before after : List Node}
    (hs : n.children = before ++ c :: after) (hb : ∀ b ∈ before, b.key ≠ c.key) (scope : Scope)
    (keys : List Key) :
    n.scopeBelow scope (c.key :: keys) = c.scopeBelow (scope.enter ⟨n, before, c⟩) keys := by
  have found : (n.scopedChildren scope).find? (·.1.key = c.key) =
      some (c, scope.enter ⟨n, before, c⟩) := by
    have earlier : ∀ link ∈ n.linksAfter [] before, link.child.key ≠ c.key := by
      intro link hl
      obtain ⟨_, d, _, hd, rfl⟩ := mem_linksAfter.1 hl
      exact hb d (by simp [hd])
    have skipped : ((n.linksAfter [] before).map fun link =>
        (link.child, scope.enter link)).find? (·.1.key = c.key) = none := by
      rw [List.find?_eq_none]
      intro entry he
      obtain ⟨link, hl, rfl⟩ := List.mem_map.1 he
      simpa using earlier link hl
    rw [scopedChildren_eq, links, hs, linksAfter_append, List.map_append, List.find?_append,
      skipped]
    simp [linksAfter]
  rw [scopeBelow, found]

theorem scopeBelow_none {n : Node} {key : Key} (h : n.child key = none) (scope : Scope)
    (keys : List Key) : n.scopeBelow scope (key :: keys) = none := by
  have some := isSome_scopeBelow n scope (key :: keys)
  rw [descend_cons, h] at some
  simpa using some

/-! ## All nodes -/

theorem mem_scopedPreorder_iff_lineage {n m : Node} {scope inner : Scope} :
    (m, inner) ∈ n.scopedPreorder scope ↔
      ∃ links, Lineage n links m ∧ inner = links.foldl Scope.enter scope := by
  induction n using children_induction generalizing scope with
  | step n ih =>
    rw [mem_scopedPreorder_iff]
    constructor
    · intro h
      rcases h with ⟨rfl, rfl⟩ | ⟨c, middle, hc, hm⟩
      · exact ⟨[], .self m, rfl⟩
      · rw [scopedChildren_eq, List.mem_map] at hc
        obtain ⟨link, hl, he⟩ := hc
        obtain ⟨before, d, after, hs, rfl⟩ := mem_links.1 hl
        obtain ⟨rfl, rfl⟩ := Prod.mk.inj he
        obtain ⟨links, hlin, hinner⟩ := (ih d (by simp [hs])).1 hm
        exact ⟨_, .step hs hlin, hinner⟩
    · intro h
      obtain ⟨links, hlin, rfl⟩ := h
      cases hlin with
      | self => exact .inl ⟨rfl, rfl⟩
      | @step _ c _ before after links hs rest =>
        refine .inr ⟨c, scope.enter ⟨n, before, c⟩, ?_, (ih c (by simp [hs])).2 ⟨links, rest, rfl⟩⟩
        rw [scopedChildren_eq, List.mem_map]
        exact ⟨_, mem_links.2 ⟨before, c, after, hs, rfl⟩, rfl⟩

end Node

/-! ## What decides -/

/-- The own tables in force at the end of a lineage: the last link that brings any decides. -/
def schemaInForce (outer : Schema) (links : List Link) : Schema :=
  (links.reverse.findSome? Link.ownSchema?).getD outer

/-- The nearest select above the end of a lineage that is left through its
columns, from or where clause, with the lineage down to it. -/
def NearestSelect (links above : List Link) (select : Node) : Prop :=
  ∃ link below, links = above ++ link :: below ∧ link.Opens ∧ (∀ l ∈ below, ¬ l.Opens) ∧
    link.parent = select

namespace Scope

theorem schema_foldl_enter (scope : Scope) (links : List Link) :
    (links.foldl enter scope).schema = scope.schema := by
  induction links generalizing scope with
  | nil => rfl
  | cons link links ih => exact ih (scope.enter link)

theorem localSchema_foldl_enter (scope : Scope) (links : List Link) :
    (links.foldl enter scope).localSchema = schemaInForce scope.localSchema links := by
  induction links using List.reverseRecOn with
  | nil => rfl
  | append_singleton links link ih =>
    rw [List.foldl_concat, schemaInForce, List.reverse_concat, List.findSome?_cons]
    cases h : link.ownSchema? with
    | some own => simp [enter, h]
    | none => simpa [enter, h, schemaInForce] using ih

theorem localSchema_foldl_enter_of_not_defines (scope : Scope) {links : List Link}
    (h : ∀ link ∈ links, ¬ link.Defines) :
    (links.foldl enter scope).localSchema = scope.localSchema := by
  have silent : links.reverse.findSome? Link.ownSchema? = none := by
    rw [List.findSome?_eq_none_iff]
    intro link hl
    exact Link.ownSchema?_eq_none (h link (List.mem_reverse.1 hl))
  rw [localSchema_foldl_enter, schemaInForce, silent]
  rfl

/-- The last link that brings own tables decides. -/
theorem localSchema_foldl_enter_of_last (scope : Scope) {above below : List Link} {link : Link}
    {own : Schema} (brings : link.ownSchema? = some own) (h : ∀ l ∈ below, ¬ l.Defines) :
    ((above ++ link :: below).foldl enter scope).localSchema = own := by
  rw [List.foldl_append, List.foldl_cons, localSchema_foldl_enter_of_not_defines _ h, enter,
    brings]
  rfl

theorem offer_foldl_enter_of_not_opens (scope : Scope) {links : List Link}
    (h : ∀ link ∈ links, ¬ link.Opens) : (links.foldl enter scope).offer = scope.offer := by
  induction links generalizing scope with
  | nil => rfl
  | cons link links ih =>
    rw [List.foldl_cons, ih _ fun l hl => h l (List.mem_cons_of_mem _ hl), enter,
      if_neg (h link List.mem_cons_self)]

theorem offer_foldl_enter_of_nearest (scope : Scope) {links above : List Link} {select : Node}
    (h : NearestSelect links above select) :
    (links.foldl enter scope).offer = select.offered (above.foldl enter scope) := by
  obtain ⟨link, below, rfl, opens, closed, rfl⟩ := h
  rw [List.foldl_append, List.foldl_cons, offer_foldl_enter_of_not_opens _ closed, enter,
    if_pos opens]

end Scope

theorem nearestSelect_or_not_opens (links : List Link) :
    (∃ above select, NearestSelect links above select) ∨ ∀ link ∈ links, ¬ link.Opens := by
  induction links with
  | nil => exact .inr (by simp)
  | cons link links ih =>
    rcases ih with ⟨above, select, l, below, rfl, opens, closed, hp⟩ | closed
    · exact .inl ⟨link :: above, select, l, below, rfl, opens, closed, hp⟩
    · by_cases opens : link.Opens
      · exact .inl ⟨[], link.parent, link, links, rfl, opens, closed, rfl⟩
      · exact .inr (List.forall_mem_cons.2 ⟨opens, closed⟩)

end QueryTree
