import QueryTree.Proofs.Lineage
import QueryTree.Scope.Dangling

/-! Which picks dangle. The report derives the scopes of the whole tree, files them
by key and looks each of them up again. What it finds is said here by the tree
alone: a table dangles if no table in force has its key, a variable if no source
of the nearest select around it offers its column. -/

namespace QueryTree

namespace Node

/-! ## The report without the map -/

/-- With distinct keys each node is judged in its own scope. -/
theorem Distinct.dangling_eq {root : Node} (h : root.Distinct) (base : Scope) :
    root.dangling base =
      (root.scopedPreorder base).filterMap fun entry => entry.1.danglingPick? entry.2 := by
  have own : ∀ entry ∈ root.scopedPreorder base,
      ((root.scopes base).get? entry.1.key).bind entry.1.danglingPick? =
        entry.1.danglingPick? entry.2 := by
    intro entry he
    rw [h.get?_scopes he]
    rfl
  rw [dangling, ← map_fst_scopedPreorder root base, List.filterMap_map]
  exact List.filterMap_congr own

theorem danglingPick?_eq_some {n : Node} {scope : Scope} {d : Dangling} :
    n.danglingPick? scope = some d ↔ ∃ key, n.data.picked? = some key ∧
      ((n.tag = .table ∧ scope.findTable? key = none ∧ d = .table n.key key) ∨
        (n.tag = .var ∧ n.data.isRaw = false ∧ scope.findColumn? key = none ∧
          d = .column n.key key)) := by
  rw [danglingPick?, Option.bind_eq_some_iff]
  refine exists_congr fun key => and_congr_right fun _ => ?_
  have same (e : Dangling) : some e = some d ↔ d = e := by
    rw [Option.some.injEq, eq_comm]
  cases n.tag with
  | table => cases scope.findTable? key <;> simp [same]
  | var => cases scope.findColumn? key <;> cases n.data.isRaw <;> simp [same]
  | _ => simp

theorem danglingPick?_node {n : Node} {scope : Scope} {d : Dangling}
    (h : n.danglingPick? scope = some d) : d.node = n.key := by
  obtain ⟨key, -, ⟨-, -, rfl⟩ | ⟨-, -, -, rfl⟩⟩ := danglingPick?_eq_some.1 h
  · rfl
  · rfl

/-- Children do not matter to what is said of a node. -/
theorem danglingPick?_congr {n n' : Node} (key : n'.key = n.key) (tag : n'.tag = n.tag)
    (data : n'.data = n.data) (scope : Scope) :
    n'.danglingPick? scope = n.danglingPick? scope := by
  rw [danglingPick?, danglingPick?, key, tag, data]

/-- The report follows the pre-order and names each node at most once. -/
theorem Distinct.dangling_sublist {root : Node} (h : root.Distinct) (base : Scope) :
    ((root.dangling base).map (·.node)).Sublist root.keys := by
  rw [h.dangling_eq, keys, ← map_fst_scopedPreorder root base, List.map_map]
  generalize root.scopedPreorder base = entries
  induction entries with
  | nil => exact .slnil
  | cons entry entries ih =>
    rw [List.filterMap_cons, List.map_cons]
    cases pick : entry.1.danglingPick? entry.2 with
    | none => exact .cons _ ih
    | some d =>
      have named := danglingPick?_node pick
      rw [List.map_cons, named]
      exact .cons_cons _ ih

end Node

/-! ## What dangles -/

/-- The first table child of the first from clause of a select, or of one of its joins. -/
def IsSource (select source : Node) : Prop :=
  ∃ clause, select.childOfTag .fromClause = some clause ∧
    (clause.childOfTag .table = some source ∨
      ∃ join ∈ clause.children, join.tag = .join ∧ join.childOfTag .table = some source)

/-- The pick of a source means a table that has a named column with the key. Own
tables come before those of the catalog. -/
def OffersColumn (own catalog : Schema) (source : Node) (key : Key) : Prop :=
  ∃ pick table, source.data.picked? = some pick ∧
    (own.tables ++ catalog.tables).find? (·.key = pick) = some table ∧
    ∃ column ∈ table.columns, column.key = key ∧ column.name ≠ ""

/-- The picks that a tree over a catalog leaves dangling. -/
inductive IsDangling (root : Node) (catalog : Schema) : Dangling → Prop
  | table {links : List Link} {n : Node} {key : Key} (lineage : Lineage root links n)
      (tag : n.tag = .table) (picked : n.data.picked? = some key)
      (own : ∀ table ∈ (schemaInForce {} links).tables, table.key ≠ key)
      (listed : ∀ table ∈ catalog.tables, table.key ≠ key) :
      IsDangling root catalog (.table n.key key)
  | column {links : List Link} {n : Node} {key : Key} (lineage : Lineage root links n)
      (tag : n.tag = .var) (plain : n.data.isRaw = false) (picked : n.data.picked? = some key)
      (offered : ∀ above select, NearestSelect links above select → ∀ source,
        IsSource select source → ¬ OffersColumn (schemaInForce {} above) catalog source key) :
      IsDangling root catalog (.column n.key key)

namespace Node

theorem mem_sources {select source : Node} : source ∈ select.sources ↔ IsSource select source := by
  rw [sources, IsSource]
  cases select.childOfTag .fromClause with
  | none => simp
  | some clause => simp [childrenOfTag, and_assoc]

/-- The columns of a source have the keys that it offers. -/
theorem exists_sourceColumns_key {scope : Scope} {source : Node} {key : Key} :
    (∃ column ∈ source.sourceColumns scope, column.key = key) ↔
      OffersColumn scope.localSchema scope.schema source key := by
  unfold sourceColumns OffersColumn
  cases found : source.sourceTable? scope with
  | none =>
    rw [sourceTable?, Option.bind_eq_none_iff] at found
    constructor
    · intro h
      obtain ⟨column, hc, -⟩ := h
      cases hc
    · intro h
      obtain ⟨pick, table, picked, hfound, -⟩ := h
      have missing := found pick picked
      rw [Scope.findTable?, Scope.visibleTables, hfound] at missing
      cases missing
  | some table =>
    obtain ⟨pick, picked, hfound⟩ := Option.bind_eq_some_iff.1 found
    constructor
    · intro h
      obtain ⟨column, hcolumn, rfl⟩ := h
      obtain ⟨c, hc, rfl⟩ := List.mem_map.1 hcolumn
      obtain ⟨hm, hn⟩ := List.mem_filter.1 hc
      refine ⟨pick, table, picked, hfound, c, hm, ?_, by simpa using hn⟩
      -- qualifying a column with an alias keeps its key
      cases source.alias? <;> rfl
    · intro h
      obtain ⟨other, table', picked', hfound', c, hm, rfl, hn⟩ := h
      obtain rfl := Option.some.inj (picked.symm.trans picked')
      obtain rfl := Option.some.inj (hfound.symm.trans hfound')
      refine ⟨_, List.mem_map_of_mem (List.mem_filter.2 ⟨hm, by simpa using hn⟩), ?_⟩
      cases source.alias? <;> rfl

theorem findColumn?_offered_eq_none {scope : Scope} {select : Node} {key : Key} :
    (select.offered scope).find? key = none ↔ ∀ source, IsSource select source →
      ¬ OffersColumn scope.localSchema scope.schema source key := by
  rw [Offer.find?, List.find?_eq_none]
  constructor
  · intro h source hs offers
    obtain ⟨column, hc, hk⟩ := exists_sourceColumns_key.2 offers
    exact h column (List.mem_flatMap.2 ⟨source, mem_sources.2 hs, hc⟩) (by simpa using hk)
  · intro h column hc hk
    obtain ⟨source, hs, hm⟩ := List.mem_flatMap.1 hc
    exact h source (mem_sources.1 hs) (exists_sourceColumns_key.1 ⟨column, hm, by simpa using hk⟩)

theorem findTable?_eq_none {scope : Scope} {key : Key} :
    scope.findTable? key = none ↔ (∀ table ∈ scope.localSchema.tables, table.key ≠ key) ∧
      ∀ table ∈ scope.schema.tables, table.key ≠ key := by
  simp [Scope.findTable?, Scope.visibleTables]

/-! ## The report -/

/-- The report lists the dangling picks and nothing else, in pre-order. -/
theorem dangling_exact {root : Node} (distinct : root.Distinct) (catalog : Schema) :
    ((root.dangling { schema := catalog }).map (·.node)).Sublist root.keys ∧
      ((root.dangling { schema := catalog }).map (·.node)).Nodup ∧
      ∀ d, d ∈ root.dangling { schema := catalog } ↔ IsDangling root catalog d := by
  have sublist := distinct.dangling_sublist { schema := catalog }
  refine ⟨sublist, distinct.sublist sublist, fun d => ?_⟩
  rw [distinct.dangling_eq, List.mem_filterMap]
  simp only [Prod.exists, mem_scopedPreorder_iff_lineage, danglingPick?_eq_some]
  constructor
  · intro h
    obtain ⟨n, _, ⟨links, lineage, rfl⟩, key, picked, reported⟩ := h
    rcases reported with ⟨tag, missing, rfl⟩ | ⟨tag, plain, missing, rfl⟩
    · rw [findTable?_eq_none, Scope.localSchema_foldl_enter, Scope.schema_foldl_enter] at missing
      exact .table lineage tag picked missing.1 missing.2
    · refine .column lineage tag plain picked fun above select nearest => ?_
      rw [Scope.findColumn?, Scope.offer_foldl_enter_of_nearest _ nearest,
        findColumn?_offered_eq_none, Scope.localSchema_foldl_enter,
        Scope.schema_foldl_enter] at missing
      exact missing
  · intro h
    rcases h with ⟨lineage, tag, picked, own, listed⟩ | ⟨lineage, tag, plain, picked, offered⟩
    · refine ⟨_, _, ⟨_, lineage, rfl⟩, _, picked, .inl ⟨tag, ?_, rfl⟩⟩
      rw [findTable?_eq_none, Scope.localSchema_foldl_enter, Scope.schema_foldl_enter]
      exact ⟨own, listed⟩
    · refine ⟨_, _, ⟨_, lineage, rfl⟩, _, picked, .inr ⟨tag, plain, ?_, rfl⟩⟩
      rcases nearestSelect_or_not_opens _ with ⟨above, select, nearest⟩ | closed
      · rw [Scope.findColumn?, Scope.offer_foldl_enter_of_nearest _ nearest,
          findColumn?_offered_eq_none, Scope.localSchema_foldl_enter, Scope.schema_foldl_enter]
        exact offered above select nearest
      · rw [Scope.findColumn?, Scope.offer_foldl_enter_of_not_opens _ closed]
        rfl

/-- Over no tables at all, what a CTE reads dangles and what is read from it does not. -/
theorem recentDays_dangling :
    recentDays.Distinct ∧ IsDangling recentDays {} (.table ⟨"inner.table"⟩ ⟨"orders"⟩) ∧
      ¬ IsDangling recentDays {} (.column ⟨"seen.var"⟩ ⟨"day"⟩) := by
  have distinct : recentDays.Distinct := by decide
  obtain ⟨-, -, exact⟩ := dangling_exact distinct {}
  refine ⟨distinct, (exact _).1 (by decide), fun h => ?_⟩
  have listed := (exact _).2 h
  revert listed
  decide

end Node

end QueryTree
