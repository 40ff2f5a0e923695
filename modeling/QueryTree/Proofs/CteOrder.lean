import QueryTree.Proofs.CteModularity
import QueryTree.Proofs.DanglingPicks
import QueryTree.Proofs.OwnTables

/-! In which order CTEs read each other. A table below a CTE finds the own tables of
some query or CTE list further down, whose keys are not those of the CTEs beside
it, or the tables of the CTEs before it. So where every picked table is found,
CTEs read earlier ones only, and no chain of them leads back to its start. -/

namespace QueryTree

namespace Node

variable {n m c : Node} {links : List Link}

/-! ## Reading -/

/-- A table in the first child picks the second child, which is a CTE. -/
structure Reads (ctes reader source : Node) : Prop where
  reader_mem : reader ∈ ctes.children
  source_mem : source ∈ ctes.children
  source_tag : source.tag = .cte
  picks : ∃ table ∈ reader.preorder, table.tag = .table ∧ table.data.picked? = some source.key

/-- A picked table that does not dangle and is not in the catalog is an own table. -/
theorem own_table_of_resolved {root table : Node} {catalog : Schema} {key : Key}
    (distinct : root.Distinct) (resolved : ∀ node key,
      Dangling.table node key ∉ root.dangling { schema := catalog })
    (unlisted : ∀ table ∈ catalog.tables, table.key ≠ key) (lineage : Lineage root links table)
    (tag : table.tag = .table) (picked : table.data.picked? = some key) :
    ∃ own ∈ (links.foldl Scope.enter ({ schema := catalog } : Scope)).localSchema.tables,
      own.key = key := by
  by_contra missing
  refine resolved table.key key ?_
  rw [distinct.dangling_eq, List.mem_filterMap]
  refine ⟨(table, _), mem_scopedPreorder_iff_lineage.2 ⟨links, lineage, rfl⟩, ?_⟩
  refine danglingPick?_eq_some.2 ⟨key, picked, .inl ⟨tag, findTable?_eq_none.2 ⟨?_, ?_⟩, rfl⟩⟩
  · intro own h same
    exact missing ⟨own, h, same⟩
  · rw [Scope.schema_foldl_enter]
    exact unlisted

/-- In a child of a CTE list the own tables are those of the CTEs before it, or of
CTEs further down. -/
theorem own_table_within {ctes reader table : Node} {before : List Node} {own : Schema.Table}
    (tag : ctes.tag = .ctes) (lineage : Lineage reader links table) (scope : Scope)
    (h : own ∈ ((⟨ctes, before, reader⟩ :: links).foldl Scope.enter scope).localSchema.tables) :
    (∃ cte ∈ before, cte.cteTable? = some own) ∨ ∃ cte, reader.Below cte ∧ own.key = cte.key := by
  rw [List.foldl_cons] at h
  rcases localSchema_of_lineage lineage (scope.enter ⟨ctes, before, reader⟩) with kept | further
  · have brings : Link.ownSchema? ⟨ctes, before, reader⟩ = some ⟨cteTables before⟩ :=
      Link.ownSchema?_of_entersCte tag
    rw [kept, Scope.enter, brings] at h
    obtain ⟨cte, hc, -, defines⟩ := mem_cteTables.1 h
    exact .inl ⟨cte, hc, defines⟩
  · exact .inr (further own h)

/-- No child of a node has the key of a node further down than one of the children. -/
theorem Distinct.key_ne_of_below {parent : Node} (h : parent.Distinct) (hc : c ∈ parent.children)
    (hn : n ∈ parent.children) (below : c.Below m) : m.key ≠ n.key := by
  intro same
  obtain ⟨d, hd, hm⟩ := below
  have inChild : m ∈ c.preorder := mem_preorder_iff.2 (.inr ⟨d, hd, hm⟩)
  obtain rfl : m = n := h.eq_of_key_eq (mem_preorder_iff.2 (.inr ⟨c, hc, inChild⟩))
    (child_mem_preorder hn) same
  obtain rfl : c = m := h.child_unique hc hn inChild m.self_mem_preorder
  exact (h.of_mem (child_mem_preorder hc)).not_mem_below hd hm

/-- What is read by way of a table that does not dangle is one of the CTEs before. -/
theorem Reads.mem_before {root ctes reader source : Node} {catalog : Schema}
    {before after : List Node} (distinct : root.Distinct)
    (apart : ∀ table ∈ catalog.tables, table.key ∉ root.keys)
    (resolved : ∀ node key, Dangling.table node key ∉ root.dangling { schema := catalog })
    (mem : ctes ∈ root.preorder) (tag : ctes.tag = .ctes)
    (hs : ctes.children = before ++ reader :: after) (reads : Reads ctes reader source) :
    source ∈ before ∧ source.alias?.isSome ∧ (source.childOfTag .select).isSome := by
  have inner : ctes.Distinct := distinct.of_mem mem
  have hsource : source.key ∈ root.keys :=
    keys_subset mem (key_mem_keys (child_mem_preorder reads.source_mem))
  obtain ⟨table, hm, tableTag, picked⟩ := reads.picks
  obtain ⟨above, down⟩ := Lineage.exists_of_mem mem
  obtain ⟨below, within⟩ := Lineage.exists_of_mem hm
  obtain ⟨own, hown, key⟩ := own_table_of_resolved distinct resolved
    (fun t ht same => apart t ht (same ▸ hsource))
    (down.append (.step hs within)) tableTag picked
  rw [List.foldl_append] at hown
  rcases own_table_within tag within _ hown with ⟨cte, hc, defines⟩ | ⟨cte, further, key'⟩
  · obtain ⟨key', complete⟩ := cteTable?_eq_some defines
    obtain rfl : cte = source := inner.eq_of_key_eq (child_mem_preorder (by simp [hs, hc]))
      (child_mem_preorder reads.source_mem) (key'.symm.trans key)
    exact ⟨hc, complete⟩
  · exact absurd (key'.symm.trans key)
      (inner.key_ne_of_below reads.reader_mem reads.source_mem further)

/-- What stands among the first elements of a list without repetitions has its place there. -/
theorem lt_of_mem_take {α : Type} {l : List α} {a : α} {i j : Nat} (nodup : l.Nodup)
    (hj : l[j]? = some a) (h : a ∈ l.take i) : j < i := by
  obtain ⟨k, hk, rfl⟩ := List.mem_take_iff_getElem.1 h
  obtain ⟨hlt, same⟩ := List.getElem?_eq_some_iff.1 hj
  obtain rfl : j = k := (nodup.getElem_inj_iff).1 same
  omega

/-- Where only earlier children are read, the position goes down along every chain of
readings, so that no chain leads back. -/
theorem acyclic_of_earlier {ctes : Node} (earlier : ∀ (i j : Nat) (reader source : Node),
    ctes.children[i]? = some reader → ctes.children[j]? = some source →
      Reads ctes reader source → j < i) (n : Node) : ¬ Relation.TransGen (Reads ctes) n n := by
  intro circle
  have descends : ∀ m, Relation.TransGen (Reads ctes) n m → ∀ i j : Nat,
      ctes.children[i]? = some n → ctes.children[j]? = some m → j < i := by
    intro m chain
    induction chain with
    | single reads => exact fun i j hi hj => earlier i j _ _ hi hj reads
    | tail _ reads ih =>
      intro i j hi hj
      obtain ⟨k, hk⟩ := List.mem_iff_getElem?.1 reads.reader_mem
      exact Nat.lt_trans (earlier k j _ _ hk hj reads) (ih i k hi hk)
  obtain ⟨first, reads, -⟩ := Relation.TransGen.head'_iff.1 circle
  obtain ⟨i, hi⟩ := List.mem_iff_getElem?.1 reads.reader_mem
  exact Nat.lt_irrefl i (descends n circle i i hi hi)

/-- If every picked table is found, and none in the catalog by the key of a node,
then each CTE that is read from within a list of CTEs stands before its reader and
has an alias and a select, so that reading never leads round in a circle. -/
theorem reads_earlier_ctes {root : Node} {catalog : Schema} (distinct : root.Distinct)
    (apart : ∀ table ∈ catalog.tables, table.key ∉ root.keys)
    (resolved : ∀ node key, Dangling.table node key ∉ root.dangling { schema := catalog })
    {ctes : Node} (mem : ctes ∈ root.preorder) (tag : ctes.tag = .ctes) :
    (∀ (i j : Nat) (reader source : Node), ctes.children[i]? = some reader →
      ctes.children[j]? = some source → Reads ctes reader source →
        j < i ∧ source.alias?.isSome ∧ (source.childOfTag .select).isSome) ∧
    ∀ n, ¬ Relation.TransGen (Reads ctes) n n := by
  have earlier : ∀ (i j : Nat) (reader source : Node), ctes.children[i]? = some reader →
      ctes.children[j]? = some source → Reads ctes reader source →
        j < i ∧ source.alias?.isSome ∧ (source.childOfTag .select).isSome := by
    intro i j reader source hi hj reads
    obtain ⟨hlt, rfl⟩ := List.getElem?_eq_some_iff.1 hi
    have split : ctes.children = ctes.children.take i ++
        ctes.children[i] :: ctes.children.drop (i + 1) := by
      rw [List.getElem_cons_drop, List.take_append_drop]
    obtain ⟨hbefore, complete⟩ := reads.mem_before distinct apart resolved mem tag split
    exact ⟨lt_of_mem_take (distinct.of_mem mem).nodup_children hj hbefore, complete⟩
  exact ⟨earlier, acyclic_of_earlier fun i j reader source hi hj reads =>
    (earlier i j reader source hi hj reads).1⟩

/-- A catalog with one table of orders. -/
def orderTables : Schema where
  tables := [{ key := ⟨"orders"⟩, name := "orders",
               columns := [{ key := ⟨"orders.day"⟩, name := "day" }] }]

/-- The second of two CTEs reads the first, which is complete and stands before it. -/
theorem weekly_reads_recent :
    recentWeeks.Distinct ∧ (∀ table ∈ orderTables.tables, table.key ∉ recentWeeks.keys) ∧
      recentWeeks.dangling { schema := orderTables } = [] ∧
      Reads recentAndWeekly weekly recent ∧
      (0 < 1 ∧ recent.alias?.isSome ∧ (recent.childOfTag .select).isSome) ∧
      ¬ Relation.TransGen (Reads recentAndWeekly) recent recent := by
  have distinct : recentWeeks.Distinct := by decide
  have apart : ∀ table ∈ orderTables.tables, table.key ∉ recentWeeks.keys := by decide
  have resolved : recentWeeks.dangling { schema := orderTables } = [] := by decide
  have reads : Reads recentAndWeekly weekly recent :=
    ⟨by decide, by decide, rfl, by decide⟩
  obtain ⟨earlier, acyclic⟩ := reads_earlier_ctes distinct apart
    (fun node key h => by rw [resolved] at h; cases h)
    (show recentAndWeekly ∈ recentWeeks.preorder by decide) rfl
  exact ⟨distinct, apart, resolved, reads, earlier 1 0 weekly recent rfl rfl reads,
    acyclic recent⟩

end Node

end QueryTree
