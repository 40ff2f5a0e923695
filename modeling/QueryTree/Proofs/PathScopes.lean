import QueryTree.Proofs.CteModularity

/-! The scope at a path, read off the path. The keys of a path lead along links, each
to the first child with the next key. The last link into a select of a query or
into a list of CTEs fixes the own tables, the last link that leaves a select
through its columns, from or where clause fixes the offer, and whatever no link
fixes is that of the base. -/

namespace QueryTree

namespace Node

/-! ## The links of a path -/

/-- The links that the keys lead along from `n`. -/
def linksAlong : Node → List Key → Option (List Link)
  | _, [] => some []
  | n, key :: keys =>
    (n.child key).bind fun c =>
      (c.linksAlong keys).map (⟨n, n.children.takeWhile (·.key ≠ key), c⟩ :: ·)

variable {n m : Node} {key : Key} {keys : List Key} {links above below : List Link} {link : Link}

theorem linksAlong_cons_eq_some :
    n.linksAlong (key :: keys) = some links ↔
      ∃ before c after rest, n.children = before ++ c :: after ∧ c.key = key ∧
        (∀ b ∈ before, b.key ≠ key) ∧ c.linksAlong keys = some rest ∧
        links = ⟨n, before, c⟩ :: rest := by
  rw [linksAlong, Option.bind_eq_some_iff]
  constructor
  · intro h
    obtain ⟨c, hc, hl⟩ := h
    obtain ⟨rest, hrest, rfl⟩ := Option.map_eq_some_iff.1 hl
    obtain ⟨before, after, hs, hk, hb⟩ := child_split hc
    exact ⟨before, c, after, rest, hs, hk, hb, hrest, by rw [takeWhile_key_ne hs hk hb]⟩
  · intro h
    obtain ⟨before, c, after, rest, hs, hk, hb, hrest, rfl⟩ := h
    subst hk
    exact ⟨c, child_eq_of_split hs hb, by rw [hrest, takeWhile_key_ne hs rfl hb]; rfl⟩

/-- The scope along the keys is the one at the end of their links. -/
theorem scopeBelow_of_linksAlong (h : n.linksAlong keys = some links) (scope : Scope) :
    n.scopeBelow scope keys = some (links.foldl Scope.enter scope) := by
  induction keys generalizing n links scope with
  | nil =>
    obtain rfl := Option.some.inj h
    rw [scopeBelow, List.foldl_nil]
  | cons key keys ih =>
    obtain ⟨before, c, after, rest, hs, rfl, hb, hrest, rfl⟩ := linksAlong_cons_eq_some.1 h
    rw [scopeBelow_split hs hb, ih hrest, List.foldl_cons]

/-- Every way down by keys is a way down. -/
theorem exists_linksAlong (h : n.descend keys = some m) :
    ∃ links, n.linksAlong keys = some links ∧ Lineage n links m ∧
      keys = links.map (·.child.key) := by
  induction keys generalizing n with
  | nil =>
    obtain rfl := Option.some.inj h
    exact ⟨[], rfl, .self n, rfl⟩
  | cons key keys ih =>
    obtain ⟨c, hc, hm⟩ := descend_cons_eq_some.1 h
    obtain ⟨rest, hrest, lineage, rfl⟩ := ih hm
    obtain ⟨before, after, hs, rfl, hb⟩ := child_split hc
    exact ⟨_, linksAlong_cons_eq_some.2 ⟨before, c, after, rest, hs, rfl, hb, hrest, rfl⟩,
      .step hs lineage, rfl⟩

/-- The links above a link are those that the keys of their children lead along. -/
theorem linksAlong_above (h : n.linksAlong keys = some (above ++ link :: below)) :
    n.linksAlong (above.map (·.child.key)) = some above := by
  induction above generalizing n keys with
  | nil => rfl
  | cons first above ih =>
    cases keys with
    | nil => cases h
    | cons key keys =>
      obtain ⟨before, c, after, rest, hs, rfl, hb, hrest, he⟩ := linksAlong_cons_eq_some.1 h
      obtain ⟨rfl, rfl⟩ := List.cons.inj he
      exact linksAlong_cons_eq_some.2 ⟨before, c, after, above, hs, rfl, hb, ih hrest, rfl⟩

/-- The scope at a path is the one at the end of the links of its keys. -/
theorem scopeAt_eq_some {root : Node} {base scope : Scope} {path : List Key} :
    root.scopeAt base path = some scope ↔ ∃ links, path.head? = some root.key ∧
      root.linksAlong path.tail = some links ∧ scope = links.foldl Scope.enter base := by
  constructor
  · intro found
    have reached : (root.nodeAt path).isSome := by
      rw [← isSome_scopeAt root base, found]
      rfl
    obtain ⟨m, hm⟩ := Option.isSome_iff_exists.1 reached
    obtain ⟨keys, rfl, hd⟩ := nodeAt_eq_some.1 hm
    obtain ⟨links, along, -⟩ := exists_linksAlong hd
    rw [scopeAt_cons_self, scopeBelow_of_linksAlong along] at found
    exact ⟨links, rfl, along, (Option.some.inj found).symm⟩
  · intro h
    obtain ⟨links, first, along, rfl⟩ := h
    cases path with
    | nil => cases first
    | cons key keys =>
      obtain rfl := Option.some.inj first
      rw [scopeAt_cons_self]
      exact scopeBelow_of_linksAlong along base

/-! ## The CTEs of a query -/

theorem prefix_of_mem_cteScopes {scope inner : Scope} {earlier : List Schema.Table}
    {ctes : List Node} (h : inner ∈ cteScopes scope earlier ctes) :
    earlier <+: inner.localSchema.tables ∧
      inner.localSchema.tables <+: earlier ++ cteTables ctes := by
  induction ctes generalizing earlier with
  | nil => cases h
  | cons cte ctes ih =>
    rw [← List.singleton_append, cteTables_append, ← List.append_assoc]
    rcases List.mem_cons.1 h with rfl | h
    · refine ⟨List.prefix_rfl, ?_⟩
      rw [List.append_assoc]
      exact List.prefix_append _ _
    · obtain ⟨front, back⟩ := ih h
      exact ⟨(List.prefix_append _ _).trans front, back⟩

/-- Each CTE sees what those before it see. -/
theorem pairwise_cteScopes (scope : Scope) (earlier : List Schema.Table) (ctes : List Node) :
    (cteScopes scope earlier ctes).Pairwise
      fun s t => s.localSchema.tables <+: t.localSchema.tables := by
  induction ctes generalizing earlier with
  | nil => exact .nil
  | cons cte ctes ih =>
    refine .cons (fun inner h => ?_) (ih _)
    exact (List.prefix_append _ _).trans (prefix_of_mem_cteScopes h).1

theorem childScopes_of_ctes (h : n.tag = .ctes) (scope : Scope) :
    n.childScopes scope = cteScopes scope [] n.children := by
  rw [childScopes, h]

theorem localSchema_of_select {scope : Scope} {entry : Node × Scope} (query : n.tag = .query)
    (h : entry ∈ n.scopedChildren scope) (select : entry.1.tag = .select) :
    entry.2.localSchema = n.ownSchema := by
  rw [scopedChildren_eq, List.mem_map] at h
  obtain ⟨link, hl, rfl⟩ := h
  obtain ⟨before, c, after, -, rfl⟩ := mem_links.1 hl
  have enters : Link.EntersSelect ⟨n, before, c⟩ := ⟨query, select⟩
  rw [Scope.enter, Link.ownSchema?_of_entersSelect enters]
  rfl

/-! ## The closed form -/

/-- The catalog at a path is that of the base. The own tables are those of the query
whose select was entered last, or of the CTEs before the one entered last, and the
offer is that of the select left last through its columns, from or where clause, in
the scope of that select; without such a link they are those of the base. So the
CTEs of a query see one after the other more of the tables that its selects see. -/
theorem scopeAt_closed_form (root : Node) (base : Scope) :
    (∀ path scope, root.scopeAt base path = some scope →
      ∃ links, path.head? = some root.key ∧ root.linksAlong path.tail = some links ∧
        scope.schema = base.schema ∧
        ((∀ l ∈ links, ¬ l.Defines) → scope.localSchema = base.localSchema) ∧
        ((∀ l ∈ links, ¬ l.Opens) → scope.offer = base.offer) ∧
        ∀ above link below, links = above ++ link :: below →
          ((∀ l ∈ below, ¬ l.Defines) →
            (link.EntersSelect → scope.localSchema = link.parent.ownSchema) ∧
            (link.EntersCte → scope.localSchema =
              ⟨(link.before.filter (·.tag = .cte)).filterMap cteTable?⟩)) ∧
          ((∀ l ∈ below, ¬ l.Opens) → link.Opens →
            ∃ outer, root.scopeAt base (root.key :: above.map (·.child.key)) = some outer ∧
              scope.offer = link.parent.offered outer)) ∧
    ∀ query ctes : Node, query.tag = .query → query.childOfTag .ctes = some ctes →
      ∀ outer inner : Scope,
        (ctes.childScopes inner).Pairwise
          (fun s t => s.localSchema.tables <+: t.localSchema.tables) ∧
        ∀ s ∈ ctes.childScopes inner, ∀ entry ∈ query.scopedChildren outer,
          entry.1.tag = .select → s.localSchema.tables <+: entry.2.localSchema.tables := by
  refine ⟨fun path scope found => ?_, fun query ctes queryTag first outer inner => ?_⟩
  · obtain ⟨links, first, along, rfl⟩ := scopeAt_eq_some.1 found
    refine ⟨links, first, along, base.schema_foldl_enter links, ?_, ?_, ?_⟩
    · exact base.localSchema_foldl_enter_of_not_defines
    · exact base.offer_foldl_enter_of_not_opens
    · rintro above link below rfl
      refine ⟨fun last => ⟨fun select => ?_, fun cte => ?_⟩, fun last opens => ?_⟩
      · exact base.localSchema_foldl_enter_of_last (Link.ownSchema?_of_entersSelect select) last
      · exact base.localSchema_foldl_enter_of_last (Link.ownSchema?_of_entersCte cte) last
      · refine ⟨above.foldl Scope.enter base, ?_, ?_⟩
        · exact scopeAt_eq_some.2 ⟨above, rfl, linksAlong_above along, rfl⟩
        · exact base.offer_foldl_enter_of_nearest ⟨link, below, rfl, opens, last, rfl⟩
  · rw [childScopes_of_ctes (tag_of_childOfTag first)]
    refine ⟨pairwise_cteScopes inner [] ctes.children, fun s hs entry he select => ?_⟩
    rw [localSchema_of_select queryTag he select, ownSchema, first]
    exact (prefix_of_mem_cteScopes hs).2

/-- The columns of the second CTE are in the scope of the first CTE only, which is a table
with a column there. They have the offer of the select around them, and the query gives its
select no fewer tables. -/
theorem recentWeeks_closed_form :
    ∃ weeks scope outer, weekly.childOfTag .select = some weeks ∧
      recentWeeks.scopeAt {}
        [⟨"query"⟩, ⟨"ctes"⟩, ⟨"weekly"⟩, ⟨"weeks"⟩, ⟨"weeks.columns"⟩] = some scope ∧
      recentWeeks.scopeAt {} [⟨"query"⟩, ⟨"ctes"⟩, ⟨"weekly"⟩, ⟨"weeks"⟩] = some outer ∧
      scope.localSchema =
        ⟨[⟨⟨"recent"⟩, "recent", [⟨⟨"day"⟩, some "recent", "day", none⟩]⟩]⟩ ∧
      scope.offer = weeks.offered outer ∧
      ∀ s ∈ recentAndWeekly.childScopes {}, ∀ entry ∈ recentWeeks.scopedChildren {},
        entry.1.tag = .select → s.localSchema.tables <+: entry.2.localSchema.tables := by
  obtain ⟨closed, chain⟩ := scopeAt_closed_form recentWeeks {}
  obtain ⟨scope, found⟩ : ∃ scope, recentWeeks.scopeAt {}
      [⟨"query"⟩, ⟨"ctes"⟩, ⟨"weekly"⟩, ⟨"weeks"⟩, ⟨"weeks.columns"⟩] = some scope :=
    Option.isSome_iff_exists.1 (by decide)
  obtain ⟨weeks, select⟩ : ∃ weeks, weekly.childOfTag .select = some weeks :=
    Option.isSome_iff_exists.1 (by decide)
  obtain ⟨links, -, along, -, -, -, last⟩ := closed _ _ found
  cases select
  cases along
  obtain ⟨own, -⟩ := last [_] ⟨recentAndWeekly, [recent], weekly⟩ [_, _] rfl
  obtain ⟨-, offer⟩ := last [_, _, _] _ [] rfl
  obtain ⟨outer, above, offered⟩ := offer (by simp) (by decide)
  refine ⟨_, scope, outer, rfl, found, above, (own (by decide)).2 rfl, offered, ?_⟩
  exact (chain recentWeeks recentAndWeekly rfl rfl {} {}).2

end Node

end QueryTree
