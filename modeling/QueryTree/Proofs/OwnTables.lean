import QueryTree.Proofs.Lineage

/-! Where own tables come from. The tables that a link brings are those of CTEs
further down than its parent, so on the way down from a node its own tables stay
in force or give way to those of nodes below it. -/

namespace QueryTree

namespace Node

theorem mem_cteTables {table : Schema.Table} {nodes : List Node} :
    table ∈ cteTables nodes ↔ ∃ cte ∈ nodes, cte.tag = .cte ∧ cte.cteTable? = some table := by
  simp [cteTables, and_assoc]

/-- A table of a CTE has its key, and the CTE has an alias and a select. -/
theorem cteTable?_eq_some {cte : Node} {table : Schema.Table} (h : cte.cteTable? = some table) :
    table.key = cte.key ∧ cte.alias?.isSome ∧ (cte.childOfTag .select).isSome := by
  unfold cteTable? at h
  cases name : cte.alias? with
  | none => simp [name] at h
  | some text =>
    cases select : cte.childOfTag .select with
    | none => simp [name, select] at h
    | some s =>
      simp only [name, select, Option.bind_eq_bind, Option.bind_some] at h
      obtain rfl := Option.some.inj h
      exact ⟨rfl, rfl, rfl⟩

/-- The node is further down than `n`. -/
def Below (n m : Node) : Prop := ∃ c ∈ n.children, m ∈ c.preorder

variable {n m c : Node} {links : List Link}

theorem Below.mem_preorder (h : n.Below m) : m ∈ n.preorder := by
  obtain ⟨c, hc, hm⟩ := h
  exact mem_preorder_iff.2 (.inr ⟨c, hc, hm⟩)

theorem below_of_mem_children (h : c ∈ n.children) : n.Below c := ⟨c, h, c.self_mem_preorder⟩

/-- Each table that a link brings is that of a CTE further down than its parent. -/
theorem below_of_ownSchema {before after : List Node} {own : Schema} {table : Schema.Table}
    (hs : n.children = before ++ c :: after) (brings : Link.ownSchema? ⟨n, before, c⟩ = some own)
    (h : table ∈ own.tables) : ∃ cte, n.Below cte ∧ table.key = cte.key := by
  by_cases select : Link.EntersSelect ⟨n, before, c⟩
  · rw [Link.ownSchema?_of_entersSelect select] at brings
    obtain rfl := Option.some.inj brings
    unfold ownSchema at h
    cases first : n.childOfTag .ctes with
    | none => simp [first] at h
    | some ctes =>
      rw [first] at h
      obtain ⟨cte, hc, -, found⟩ := mem_cteTables.1 h
      exact ⟨cte, ⟨ctes, List.mem_of_find?_eq_some first, child_mem_preorder hc⟩,
        (cteTable?_eq_some found).1⟩
  · by_cases cte : Link.EntersCte ⟨n, before, c⟩
    · rw [Link.ownSchema?_of_entersCte cte] at brings
      obtain rfl := Option.some.inj brings
      obtain ⟨cte, hc, -, found⟩ := mem_cteTables.1 h
      exact ⟨cte, below_of_mem_children (by simp [hs, hc]), (cteTable?_eq_some found).1⟩
    · rw [Link.ownSchema?_eq_none (not_or.2 ⟨select, cte⟩)] at brings
      cases brings

/-- On the way down from a node its own tables stay in force, or those of CTEs
further down take their place. -/
theorem localSchema_of_lineage (lineage : Lineage n links m) (scope : Scope) :
    (links.foldl Scope.enter scope).localSchema = scope.localSchema ∨
      ∀ table ∈ (links.foldl Scope.enter scope).localSchema.tables,
        ∃ cte, n.Below cte ∧ table.key = cte.key := by
  induction lineage generalizing scope with
  | self => exact .inl rfl
  | @step n c m before after links hs rest ih =>
    rw [List.foldl_cons]
    rcases ih (scope.enter ⟨n, before, c⟩) with same | further
    · rw [same]
      cases brings : Link.ownSchema? ⟨n, before, c⟩ with
      | none => exact .inl (by rw [Scope.enter, brings]; rfl)
      | some own =>
        refine .inr fun table h => below_of_ownSchema hs brings ?_
        rw [Scope.enter, brings] at h
        exact h
    · refine .inr fun table h => ?_
      obtain ⟨cte, below, key⟩ := further table h
      exact ⟨cte, ⟨c, by simp [hs], below.mem_preorder⟩, key⟩

end Node

end QueryTree
