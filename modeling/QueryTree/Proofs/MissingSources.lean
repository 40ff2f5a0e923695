import QueryTree.Document
import QueryTree.Proofs.DanglingPicks
import QueryTree.Proofs.Face
import QueryTree.Proofs.Likeness
import QueryTree.Proofs.Validity

/-! Which sources are missing. While scopes are derived, every select looks up the tables
that it reads and passes over those that are not in scope. The report of dangling picks
looks up every table of the tree, in a scope of its own. In a valid tree with tables in
from clauses and joins only, every table is a source of one select, and the scopes in
between change no table in scope, so both find the same tables missing. -/

namespace QueryTree

/-- What the report says of a table, as a missing source. -/
def Dangling.missingSource? : Dangling → Option MissingSource
  | table node key => some { node, table := key }
  | column .. => none

namespace Node

/-- Tables stand in from clauses and joins only, joins in from clauses, and from clauses
in selects. -/
structure SourcesInPlace (root : Node) : Prop where
  tables : ∀ n ∈ root.preorder, n.tag = .table →
    ∃ holder ∈ root.preorder, (holder.tag = .fromClause ∨ holder.tag = .join) ∧ n ∈ holder.children
  joins : ∀ n ∈ root.preorder, n.tag = .join →
    ∃ clause ∈ root.preorder, clause.tag = .fromClause ∧ n ∈ clause.children
  clauses : ∀ n ∈ root.preorder, n.tag = .fromClause →
    ∃ select ∈ root.preorder, select.tag = .select ∧ n ∈ select.children

variable {root : Node} {base : Scope}

/-! ## Sources and the nodes that hold them -/

/-- The nodes that hold the sources of a select: its from clause, then the joins there. -/
def holders (select : Node) : List Node :=
  match select.childOfTag .fromClause with
  | some clause => clause :: clause.childrenOfTag .join
  | none => []

theorem sources_eq (select : Node) :
    select.sources = select.holders.filterMap (·.childOfTag .table) := by
  rw [sources, holders]
  cases select.childOfTag .fromClause <;> rfl

theorem mem_holders {select holder : Node} :
    holder ∈ select.holders ↔ ∃ clause, select.childOfTag .fromClause = some clause ∧
      (holder = clause ∨ holder ∈ clause.childrenOfTag .join) := by
  rw [holders]
  cases select.childOfTag .fromClause <;> simp

theorem holder_mem_preorder {select holder : Node} (hs : select ∈ root.preorder)
    (h : holder ∈ select.holders) : holder ∈ root.preorder := by
  obtain ⟨clause, hc, rfl | hj⟩ := mem_holders.1 h
  · exact mem_preorder_trans hs (child_mem_preorder (childOfTag_mem hc))
  · have inClause : holder ∈ clause.preorder :=
      child_mem_preorder (clause.childrenOfTag_subset .join hj)
    have inSelect : clause ∈ select.preorder := child_mem_preorder (childOfTag_mem hc)
    exact mem_preorder_trans hs (mem_preorder_trans inSelect inClause)

/-- No node holds sources of two selects. -/
theorem Distinct.select_unique {a b holder : Node} (h : root.Distinct) (ha : a ∈ root.preorder)
    (hb : b ∈ root.preorder) (ofA : holder ∈ a.holders) (ofB : holder ∈ b.holders) : a = b := by
  obtain ⟨clause, hc, inA⟩ := mem_holders.1 ofA
  obtain ⟨clause', hc', inB⟩ := mem_holders.1 ofB
  have clauses : clause = clause' := by
    have tag : clause.tag = .fromClause := tag_of_childOfTag hc
    have tag' : clause'.tag = .fromClause := tag_of_childOfTag hc'
    rcases inA with rfl | joinA <;> rcases inB with rfl | joinB
    · rfl
    · exact absurd ((tag_of_mem_childrenOfTag joinB).symm.trans tag) (by decide)
    · exact absurd ((tag_of_mem_childrenOfTag joinA).symm.trans tag') (by decide)
    · exact h.parent_unique (holder_mem_preorder ha (mem_holders.2 ⟨clause, hc, .inl rfl⟩))
        (holder_mem_preorder hb (mem_holders.2 ⟨clause', hc', .inl rfl⟩))
        (childrenOfTag_subset _ _ joinA) (childrenOfTag_subset _ _ joinB)
  subst clauses
  exact h.parent_unique ha hb (childOfTag_mem hc) (childOfTag_mem hc')

theorem Distinct.nodup_holders {select : Node} (h : select.Distinct) : select.holders.Nodup := by
  rw [holders]
  cases hc : select.childOfTag .fromClause with
  | none => exact List.nodup_nil
  | some clause =>
    have inner := h.of_mem (child_mem_preorder (childOfTag_mem hc))
    refine List.nodup_cons.2 ⟨fun again => ?_, inner.nodup_children.filter _⟩
    exact absurd ((tag_of_mem_childrenOfTag again).symm.trans (tag_of_childOfTag hc)) (by decide)

theorem Distinct.nodup_sources {select : Node} (h : select.Distinct) : select.sources.Nodup := by
  rw [sources_eq, List.Nodup, List.pairwise_filterMap]
  refine h.nodup_holders.imp_of_mem fun {a b} ha hb different t ht t' ht' same => ?_
  subst same
  exact different (h.parent_unique (holder_mem_preorder select.self_mem_preorder ha)
    (holder_mem_preorder select.self_mem_preorder hb) (childOfTag_mem ht) (childOfTag_mem ht'))

/-- The sources that are looked up when the scopes of the children are derived. -/
def sourcesRead (n : Node) : List Node := if n.tag = .select then n.sources else []

theorem missingSources_eq (scope : Scope) (n : Node) :
    n.missingSources scope = n.sourcesRead.filterMap (missingSource? scope) := by
  rw [missingSources, sourcesRead]
  split <;> rfl

theorem mem_sourcesRead {n source : Node} :
    source ∈ n.sourcesRead ↔ n.tag = .select ∧
      ∃ holder ∈ n.holders, holder.childOfTag .table = some source := by
  rw [sourcesRead, sources_eq]
  split <;> simp [*]

theorem Distinct.nodup_sourcesRead {n : Node} (h : n.Distinct) : n.sourcesRead.Nodup := by
  rw [sourcesRead]
  split
  · exact h.nodup_sources
  · exact List.nodup_nil

theorem source_mem_preorder {select source : Node} (hs : select ∈ root.preorder)
    (h : source ∈ select.sourcesRead) : source ∈ root.preorder := by
  obtain ⟨-, holder, held, found⟩ := mem_sourcesRead.1 h
  exact mem_preorder_trans (holder_mem_preorder hs held) (child_mem_preorder (childOfTag_mem found))

/-- Every table is a source of a select. -/
theorem SourcesInPlace.exists_select (placed : root.SourcesInPlace)
    (conforms : root.Conforms Tag.Admits) {n : Node} (hn : n ∈ root.preorder)
    (tag : n.tag = .table) : ∃ select ∈ root.preorder, n ∈ select.sourcesRead := by
  have clauseOf {clause : Node} (hc : clause ∈ root.preorder) (tag : clause.tag = .fromClause) :
      ∃ select ∈ root.preorder, select.tag = .select ∧
        select.childOfTag .fromClause = some clause := by
    obtain ⟨select, hs, selects, member⟩ := placed.clauses clause hc tag
    have rule := conforms select hs
    rw [selects] at rule
    have tags : select.childTags = [.columns, .fromClause, .whereClause] := rule
    exact ⟨select, hs, selects, childOfTag_of_count (by rw [tags]; rfl) member tag⟩
  obtain ⟨holder, hh, kind, member⟩ := placed.tables n hn tag
  have rule := conforms holder hh
  have held : holder.childOfTag .table = some n := by
    rcases kind with kind | kind <;> rw [kind] at rule
    · exact childOfTag_of_count rule member tag
    · exact childOfTag_of_count rule.1 member tag
  rcases kind with clause | join
  · obtain ⟨select, hs, selects, hc⟩ := clauseOf hh clause
    exact ⟨select, hs, mem_sourcesRead.2
      ⟨selects, holder, mem_holders.2 ⟨holder, hc, .inl rfl⟩, held⟩⟩
  · obtain ⟨clause, hc, tag', inside⟩ := placed.joins holder hh join
    obtain ⟨select, hs, selects, first⟩ := clauseOf hc tag'
    have joined : holder ∈ clause.childrenOfTag .join :=
      List.mem_filter.2 ⟨inside, by simpa using join⟩
    exact ⟨select, hs, mem_sourcesRead.2
      ⟨selects, holder, mem_holders.2 ⟨clause, first, .inr joined⟩, held⟩⟩

/-- The sources of all selects are the tables of the tree, each of them once. -/
theorem SourcesInPlace.sources_perm (placed : root.SourcesInPlace) (distinct : root.Distinct)
    (conforms : root.Conforms Tag.Admits) :
    (root.preorder.flatMap sourcesRead).Perm (root.preorder.filter (·.tag = .table)) := by
  have nodes : root.preorder.Nodup := List.Nodup.of_map _ distinct
  have once : (root.preorder.flatMap sourcesRead).Nodup := by
    refine List.nodup_flatMap.2 ⟨fun n hn => (distinct.of_mem hn).nodup_sourcesRead, ?_⟩
    refine nodes.imp_of_mem fun {a b} ha hb different t inA inB => ?_
    obtain ⟨-, holder, ofA, held⟩ := mem_sourcesRead.1 inA
    obtain ⟨-, holder', ofB, held'⟩ := mem_sourcesRead.1 inB
    obtain rfl : holder = holder' := distinct.parent_unique (holder_mem_preorder ha ofA)
      (holder_mem_preorder hb ofB) (childOfTag_mem held) (childOfTag_mem held')
    exact different (distinct.select_unique ha hb ofA ofB)
  refine (List.perm_ext_iff_of_nodup once (nodes.filter _)).2 fun t => ?_
  rw [List.mem_flatMap, List.mem_filter]
  constructor
  · intro h
    obtain ⟨select, hs, read⟩ := h
    obtain ⟨-, holder, -, ht⟩ := mem_sourcesRead.1 read
    exact ⟨source_mem_preorder hs read, by simpa using tag_of_childOfTag ht⟩
  · intro h
    exact placed.exists_select conforms h.1 (by simpa using h.2)

/-! ## Scopes between a select and its sources -/

theorem sameTables_enter {link : Link} (h : ¬ link.Defines) (scope : Scope) :
    scope.SameTables (scope.enter link) where
  schema := rfl
  localSchema := by rw [Scope.enter, Link.ownSchema?_eq_none h, Option.getD_none]

/-- The scope of a child is derived from that of its parent. Below a node that is no query
and no list of CTEs, the tables in scope are the same. -/
theorem exists_child_scope {n c : Node} {scope : Scope}
    (hn : (n, scope) ∈ root.scopedPreorder base) (hc : c ∈ n.children) (query : n.tag ≠ .query)
    (ctes : n.tag ≠ .ctes) :
    ∃ inner, (c, inner) ∈ root.scopedPreorder base ∧ scope.SameTables inner := by
  obtain ⟨links, lineage, rfl⟩ := mem_scopedPreorder_iff_lineage.1 hn
  obtain ⟨before, after, hs⟩ := List.append_of_mem hc
  have down := lineage.append (.step hs (.self c))
  refine ⟨_, mem_scopedPreorder_iff_lineage.2 ⟨_, down, rfl⟩, ?_⟩
  rw [List.foldl_concat]
  refine sameTables_enter (fun defines => ?_) _
  rcases defines with select | cte
  · exact query select.1
  · exact ctes cte

theorem exists_source_scope {n source : Node} {scope : Scope}
    (hn : (n, scope) ∈ root.scopedPreorder base) (h : source ∈ n.sourcesRead) :
    ∃ inner, (source, inner) ∈ root.scopedPreorder base ∧ scope.SameTables inner := by
  obtain ⟨select, holder, hh, ht⟩ := mem_sourcesRead.1 h
  obtain ⟨clause, hc, which⟩ := mem_holders.1 hh
  have tag := tag_of_childOfTag hc
  obtain ⟨inner, hi, same⟩ := exists_child_scope hn (childOfTag_mem hc)
    (by simp [select]) (by simp [select])
  have member := childOfTag_mem ht
  rcases which with rfl | join
  · obtain ⟨last, hl, same'⟩ := exists_child_scope hi member (by simp [tag]) (by simp [tag])
    exact ⟨last, hl, same.trans same'⟩
  · have tag' := tag_of_mem_childrenOfTag join
    obtain ⟨middle, hm, same'⟩ := exists_child_scope hi (childrenOfTag_subset _ _ join)
      (by simp [tag]) (by simp [tag])
    obtain ⟨last, hl, same''⟩ := exists_child_scope hm member (by simp [tag']) (by simp [tag'])
    exact ⟨last, hl, (same.trans same').trans same''⟩

/-- A source is missing if it has a pick and the look-up for its columns finds no table. -/
theorem missingSource?_eq_some {scope : Scope} {source : Node} {missing : MissingSource} :
    source.missingSource? scope = some missing ↔ source.sourceTable? scope = none ∧
      source.data.picked? = some missing.table ∧ missing.node = source.key := by
  obtain ⟨node, table⟩ := missing
  unfold missingSource? sourceTable?
  cases source.data.picked? with
  | none => simp
  | some key =>
    cases found : scope.findTable? key with
    | some table => simp [found]
    | none =>
      simp only [Option.bind_eq_bind, Option.bind_some, found, Option.isNone_none, if_true,
        Option.pure_def, Option.some.injEq, MissingSource.mk.injEq, true_and]
      exact and_comm.trans (and_congr_right fun _ => eq_comm)

/-- Such a source gives no columns. -/
theorem sourceColumns_eq_nil {scope : Scope} {source : Node}
    (unfound : source.sourceTable? scope = none) : source.sourceColumns scope = [] := by
  rw [sourceColumns, unfound]

theorem missingSource?_congr {scope scope' : Scope} (same : scope.SameTables scope')
    (source : Node) : source.missingSource? scope' = source.missingSource? scope := by
  simp only [missingSource?, same.findTable?_eq]

/-! ## Both lookups -/

/-- A table node whose pick is not in the scope that is filed for it. -/
def missingAt? (root : Node) (base : Scope) (n : Node) : Option MissingSource :=
  ((root.scopes base).get? n.key).bind n.missingSource?

/-- What selects pass over is missing in the scopes of the tables themselves. -/
theorem Distinct.missingEverywhere_eq (h : root.Distinct) (base : Scope) :
    root.missingEverywhere base =
      (root.preorder.flatMap sourcesRead).filterMap (root.missingAt? base) := by
  have each : ∀ entry ∈ root.scopedPreorder base, entry.1.missingSources entry.2 =
      entry.1.sourcesRead.filterMap (root.missingAt? base) := by
    intro entry he
    rw [missingSources_eq]
    refine List.filterMap_congr fun source hs => ?_
    obtain ⟨inner, hi, same⟩ := exists_source_scope he hs
    rw [missingAt?, h.get?_scopes hi, Option.bind_some, missingSource?_congr same]
  rw [missingEverywhere, List.filterMap_flatMap, ← map_fst_scopedPreorder root base,
    List.flatMap_map]
  exact List.flatMap_congr each

/-- A picked source is missing exactly if its select finds no table for its columns. -/
theorem Distinct.mem_missingEverywhere (h : root.Distinct) {select source : Node} {scope : Scope}
    {key : Key} (hs : (select, scope) ∈ root.scopedPreorder base)
    (read : source ∈ select.sourcesRead) (picked : source.data.picked? = some key) :
    ⟨source.key, key⟩ ∈ root.missingEverywhere base ↔ source.sourceTable? scope = none := by
  obtain ⟨inner, hi, same⟩ := exists_source_scope hs read
  have own : root.missingAt? base source = source.missingSource? scope := by
    rw [missingAt?, h.get?_scopes hi, Option.bind_some, missingSource?_congr same]
  have member : select ∈ root.preorder := by
    rw [← map_fst_scopedPreorder root base]
    exact List.mem_map_of_mem hs
  rw [h.missingEverywhere_eq, List.mem_filterMap]
  constructor
  · intro missing
    obtain ⟨n, hn, found⟩ := missing
    obtain ⟨other, ho, hr⟩ := List.mem_flatMap.1 hn
    obtain ⟨_, -, judged⟩ := Option.bind_eq_some_iff.1 found
    obtain ⟨-, -, key⟩ := missingSource?_eq_some.1 judged
    obtain rfl : source = n := h.eq_of_key_eq (source_mem_preorder member read)
      (source_mem_preorder ho hr) key
    rw [own] at found
    exact (missingSource?_eq_some.1 found).1
  · intro unfound
    refine ⟨source, List.mem_flatMap.2 ⟨select, member, read⟩, ?_⟩
    rw [own]
    exact missingSource?_eq_some.2 ⟨unfound, picked, rfl⟩

theorem danglingPick?_missingSource? (n : Node) (scope : Scope) :
    (n.danglingPick? scope).bind Dangling.missingSource? =
      if n.tag = .table then n.missingSource? scope else none := by
  unfold danglingPick? missingSource?
  cases n.data.picked? with
  | none => simp
  | some key =>
    rw [Option.bind_some]
    cases n.tag with
    | table => cases found : scope.findTable? key <;> simp [Dangling.missingSource?, found]
    | var =>
      cases scope.findColumn? key <;> cases n.data.isRaw <;> simp [Dangling.missingSource?]
    | _ => rfl

theorem filterMap_dangling (root : Node) (base : Scope) :
    (root.dangling base).filterMap Dangling.missingSource? =
      (root.preorder.filter (·.tag = .table)).filterMap (root.missingAt? base) := by
  rw [dangling, List.filterMap_filterMap, List.filterMap_filter]
  refine List.filterMap_congr fun n _ => ?_
  rw [missingAt?, Option.bind_assoc]
  simp only [danglingPick?_missingSource?]
  cases (root.scopes base).get? n.key <;> by_cases tag : n.tag = .table <;> simp [tag]

/-- The report names no table twice. -/
theorem Distinct.nodup_missing (h : root.Distinct) (base : Scope) :
    (((root.dangling base).filterMap Dangling.missingSource?).map (·.node)).Nodup := by
  refine List.Nodup.sublist ?_ (h.sublist (h.dangling_sublist base))
  generalize root.dangling base = report
  induction report with
  | nil => exact .slnil
  | cons d report ih =>
    cases d with
    | table node key => exact .cons_cons _ ih
    | column node key => exact .cons _ ih

end Node

namespace Document

theorem events_scopes (doc : Document) :
    doc.scopes.events.filter (·.message = "table not in scope") =
      (doc.root.missingEverywhere doc.base).map .missingSource := by
  have kept : ∀ event ∈ (doc.root.missingEverywhere doc.base).map Log.Event.missingSource,
      decide (event.message = "table not in scope") = true := by
    intro event h
    obtain ⟨source, -, rfl⟩ := List.mem_map.1 h
    rfl
  rw [scopes, List.filter_append, List.filter_eq_self.2 kept]
  simp [Log.Event.message]

/-- In a valid document with its tables in place, one derivation of all scopes logs a
missing source for each table that the report calls dangling and for no other, once. A
source with a pick is logged exactly if its select finds no table for it, and so has no
columns to offer from it. -/
theorem missing_sources_dangle (doc : Document) (valid : doc.root.violations = [])
    (placed : doc.root.SourcesInPlace) :
    (doc.scopes.events.filter (·.message = "table not in scope")).Perm
        ((doc.dangling.value.filterMap Dangling.missingSource?).map .missingSource) ∧
      ((doc.dangling.value.filterMap Dangling.missingSource?).map (·.node)).Nodup ∧
      ∀ select scope source key, (select, scope) ∈ doc.root.scopedPreorder doc.base →
        select.tag = .select → source ∈ select.sources → source.data.picked? = some key →
        (.missingSource ⟨source.key, key⟩ ∈ doc.scopes.events ↔
          source.sourceTable? scope = none) ∧
        (source.sourceTable? scope = none → source.sourceColumns scope = []) := by
  obtain ⟨distinct, conforms⟩ := Node.violations_eq_nil.1 valid
  refine ⟨?_, distinct.nodup_missing doc.base, fun select scope source key hs tag read picked =>
    ⟨?_, Node.sourceColumns_eq_nil⟩⟩
  · rw [events_scopes, distinct.missingEverywhere_eq]
    refine List.Perm.map _ ?_
    show List.Perm _ ((doc.root.dangling doc.base).filterMap Dangling.missingSource?)
    rw [Node.filterMap_dangling]
    exact (placed.sources_perm distinct conforms).filterMap _
  · have sourceRead : source ∈ select.sourcesRead := by rwa [Node.sourcesRead, if_pos tag]
    rw [← distinct.mem_missingEverywhere hs sourceRead picked]
    simp [scopes]

/-- A select from a table of orders with two joins before it, of items and of days. Only
days are in the catalog. -/
def ordersItemsDays : Document :=
  let table (name : String) : Node :=
    { key := ⟨name⟩, tag := .table, data := { selected := some ⟨"db." ++ name⟩ } }
  let join (name : String) : Node :=
    { key := ⟨name ++ ".join"⟩, tag := .join, kids := some [
        { key := ⟨name ++ ".on"⟩, tag := .joinOn, kids := some [
          { key := ⟨name ++ ".left"⟩, tag := .var }, { key := ⟨name ++ ".right"⟩, tag := .var }] },
        table name] }
  ofRoot
    { key := ⟨"select"⟩, tag := .select, kids := some [
        { key := ⟨"columns"⟩, tag := .columns },
        { key := ⟨"from"⟩, tag := .fromClause, kids := some [
          join "items", join "days", table "orders"] },
        { key := ⟨"where"⟩, tag := .whereClause }] }
    ⟨[{ key := ⟨"db.days"⟩, name := "days", columns := [] }]⟩ .sequential {}

/-- The log follows the select, which reads the joins last; the report follows the tree. -/
theorem ordersItemsDays_missing :
    ordersItemsDays.root.violations = [] ∧ ordersItemsDays.root.SourcesInPlace ∧
      (ordersItemsDays.scopes.events.filter (·.message = "table not in scope")).Perm
        [.missingSource ⟨⟨"items"⟩, ⟨"db.items"⟩⟩, .missingSource ⟨⟨"orders"⟩, ⟨"db.orders"⟩⟩] ∧
      ordersItemsDays.scopes.events.head? = some (.missingSource ⟨⟨"orders"⟩, ⟨"db.orders"⟩⟩) ∧
      .missingSource ⟨⟨"days"⟩, ⟨"db.days"⟩⟩ ∉ ordersItemsDays.scopes.events := by
  have valid : ordersItemsDays.root.violations = [] := by decide
  have placed : ordersItemsDays.root.SourcesInPlace := ⟨by decide, by decide, by decide⟩
  obtain ⟨logged, -, passedOver⟩ := missing_sources_dangle ordersItemsDays valid placed
  have report : ordersItemsDays.dangling.value.filterMap Dangling.missingSource? =
      [⟨⟨"items"⟩, ⟨"db.items"⟩⟩, ⟨⟨"orders"⟩, ⟨"db.orders"⟩⟩] := by decide
  rw [report] at logged
  refine ⟨valid, placed, logged, by decide, fun days => ?_⟩
  obtain ⟨found, -⟩ := passedOver ordersItemsDays.root ordersItemsDays.base
    { key := ⟨"days"⟩, tag := .table, data := { selected := some ⟨"db.days"⟩ } } ⟨"db.days"⟩
    (by decide) rfl (by decide) rfl
  exact absurd (found.1 days) (by decide)

end Document

end QueryTree
