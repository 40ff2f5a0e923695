import QueryTree.Proofs.Change
import QueryTree.Proofs.CteModularity
import QueryTree.Proofs.DanglingPicks
import QueryTree.Proofs.OwnTables

/-! What one more part does to the names in a query. A column, a join or a CTE is
never the child that a look-up by tag asks for, and with a key of its own never
the table that a look-up by key finds in the place of another. So every table
that was found is found again, with its columns and maybe more, every offer keeps
its columns, and no pick is left dangling that was not. -/

namespace QueryTree

/-! ## Lists with new elements in between -/

/-- The second list has elements related to those of the first one, in order, and
any number of new ones between them. -/
inductive Spread {α β : Type} (R : α → β → Prop) (new : β → Prop) : List α → List β → Prop
  | nil : Spread R new [] []
  | keep {a : α} {b : β} {as : List α} {bs : List β} (related : R a b)
      (rest : Spread R new as bs) : Spread R new (a :: as) (b :: bs)
  | insert {b : β} {as : List α} {bs : List β} (isNew : new b)
      (rest : Spread R new as bs) : Spread R new as (b :: bs)

namespace Spread

variable {α β γ δ : Type} {R : α → β → Prop} {new : β → Prop} {as as' : List α} {bs bs' : List β}

theorem refl_of {R : α → α → Prop} {new : α → Prop} (refl : ∀ a, R a a) (as : List α) :
    Spread R new as as := by
  induction as with
  | nil => exact .nil
  | cons a as ih => exact .keep (refl a) ih

theorem append (h : Spread R new as bs) (h' : Spread R new as' bs') :
    Spread R new (as ++ as') (bs ++ bs') := by
  induction h with
  | nil => exact h'
  | keep related _ ih => exact .keep related ih
  | insert isNew _ ih => exact .insert isNew ih

/-- An element of the first list stands in the second one after what became of
the elements before it. -/
theorem split {a : α} {before after : List α} (h : Spread R new (before ++ a :: after) bs) :
    ∃ before' b after', bs = before' ++ b :: after' ∧ Spread R new before before' ∧ R a b := by
  generalize whole : before ++ a :: after = as at h
  induction h generalizing before with
  | nil => simp at whole
  | @keep first b _ bs related rest ih =>
    cases before with
    | nil =>
      obtain ⟨rfl, -⟩ := List.cons.inj whole
      exact ⟨[], b, bs, rfl, .nil, related⟩
    | cons =>
      obtain ⟨rfl, remaining⟩ := List.cons.inj whole
      obtain ⟨before', c, after', rfl, front, same⟩ := ih remaining
      exact ⟨b :: before', c, after', rfl, .keep related front, same⟩
  | @insert b _ _ isNew rest ih =>
    obtain ⟨before', c, after', rfl, front, same⟩ := ih whole
    exact ⟨b :: before', c, after', rfl, .insert isNew front, same⟩

theorem exists_of_mem {a : α} (h : Spread R new as bs) (ha : a ∈ as) : ∃ b ∈ bs, R a b := by
  obtain ⟨before, after, rfl⟩ := List.append_of_mem ha
  obtain ⟨before', b, after', rfl, -, related⟩ := h.split
  exact ⟨b, by simp, related⟩

/-- A search that passes over new elements finds what it found before. -/
theorem find? {p : α → Bool} {q : β → Bool} (h : Spread R new as bs)
    (same : ∀ a b, R a b → q b = p a) (passes : ∀ b, new b → q b = false) :
    Option.Rel R (as.find? p) (bs.find? q) := by
  induction h with
  | nil => exact .none
  | @keep a b _ _ related _ ih =>
    rw [List.find?_cons, List.find?_cons, same a b related]
    cases p a with
    | true => exact .some related
    | false => exact ih
  | insert isNew _ ih =>
    rw [List.find?_cons, passes _ isNew]
    exact ih

theorem filterMap {f : α → Option γ} {g : β → Option δ} {S : γ → δ → Prop} {newer : δ → Prop}
    (h : Spread R new as bs) (kept : ∀ a b, R a b → Option.Rel S (f a) (g b))
    (isNewer : ∀ b d, new b → g b = some d → newer d) :
    Spread S newer (as.filterMap f) (bs.filterMap g) := by
  induction h with
  | nil => exact .nil
  | @keep a b _ _ related _ ih =>
    have images := kept a b related
    rw [List.filterMap_cons, List.filterMap_cons]
    generalize f a = x at images
    generalize g b = y at images
    cases images with
    | none => exact ih
    | some image => exact .keep image ih
  | @insert b _ _ isNew _ ih =>
    rw [List.filterMap_cons]
    cases image : g b with
    | none => exact ih
    | some d => exact .insert (isNewer b d isNew image) ih

end Spread

/-- A partner of what was found was found too. -/
theorem exists_of_rel_some {α β : Type} {R : α → β → Prop} {a : α} {found : Option β}
    (h : Option.Rel R (some a) found) : ∃ b, found = some b ∧ R a b := by
  cases h with
  | some related => exact ⟨_, rfl, related⟩

/-! ## Trees with one more part -/

/-- The tags that a single child is looked up by: the first child with the tag is meant. -/
def Tag.sought : List Tag := [.aliasName, .select, .columns, .ctes, .fromClause, .table]

theorem Part.tag_not_mem_sought (part : Part) : part.tag ∉ Tag.sought := by
  cases part <;> decide

/-- The second node is the first one, or has the added node at an end of the children
of one node somewhere in it. -/
inductive Node.Grown (added : Node) : Node → Node → Prop
  | same (n : Node) : Grown added n n
  | here (n : Node) (place : Place) : Grown added n (n.addChild added place)
  | step {n n' c c' : Node} {before after : List Node} (edit : Rebuilt n n' before c c' after)
      (rest : Grown added c c') : Grown added n n'

/-- The second table has the key of the first, and its columns among others. -/
structure Schema.Table.Wider (table table' : Schema.Table) : Prop where
  key : table'.key = table.key
  columns : table.columns ⊆ table'.columns

/-- The second list of tables is the first one with wider tables, and with tables
of one key in between. -/
def Schema.Wider (key : Key) (schema schema' : Schema) : Prop :=
  Spread Table.Wider (·.key = key) schema.tables schema'.tables

theorem Schema.Wider.refl (key : Key) (schema : Schema) : schema.Wider key schema :=
  .refl_of (fun _ => ⟨rfl, List.Subset.refl _⟩) _

namespace Node

variable {added n n' c t new select select' source : Node} {keys : List Key}

namespace Grown

theorem head (h : Grown added n n') : n'.key = n.key ∧ n'.tag = n.tag ∧ n'.data = n.data := by
  cases h with
  | same => exact ⟨rfl, rfl, rfl⟩
  | here _ place => cases place <;> exact ⟨rfl, rfl, rfl⟩
  | step edit => rw [edit.result]; exact ⟨rfl, rfl, rfl⟩

theorem key (h : Grown added n n') : n'.key = n.key := h.head.1

theorem tag (h : Grown added n n') : n'.tag = n.tag := h.head.2.1

theorem data (h : Grown added n n') : n'.data = n.data := h.head.2.2

theorem children (h : Grown added n n') :
    Spread (Grown added) (· = added) n.children n'.children := by
  have kept : ∀ ns : List Node, Spread (Grown added) (· = added) ns ns := .refl_of .same
  cases h with
  | same => exact kept _
  | here _ place =>
    cases place with
    | front => exact .insert rfl (kept _)
    | back =>
      have put := (kept n.children).append (.insert rfl .nil)
      rwa [List.append_nil] at put
  | step edit rest =>
    rw [edit.children, edit.children']
    exact (kept _).append (.keep rest (kept _))

/-- A node with one more child in the place of the node grows the whole tree. -/
theorem of_replaceBelow {place : Place} (ht : n.descend keys = some t)
    (h : replaceBelow (t.addChild added place) n keys = .ok new) : Grown added n new := by
  induction keys generalizing n new with
  | nil =>
    obtain rfl := Option.some.inj ht
    rw [replaceBelow_nil] at h
    obtain rfl := Except.ok.inj h
    exact .here n place
  | cons key keys ih =>
    obtain ⟨before, c, c', after, hs, hc, hb, hr, result⟩ := replaceBelow_cons_split h
    rw [descend_cons, hc] at ht
    obtain ⟨sameKey, sameTag⟩ := head_replaceBelow ht (key_addChild t added place)
      (tag_addChild t added place) hr
    obtain rfl := child_key hc
    exact .step ⟨hs, hb, sameKey, sameTag, result⟩ (ih ht hr)

/-! ### What is read below a node -/

theorem childOfTag {tag : Tag} (h : Grown added n n') (other : added.tag ≠ tag) :
    Option.Rel (Grown added) (n.childOfTag tag) (n'.childOfTag tag) := by
  refine h.children.find? (fun c c' grown => by rw [grown.tag]) ?_
  rintro _ rfl
  exact decide_eq_false other

variable (unsought : added.tag ∉ Tag.sought)
include unsought

/-- The added node is never the child that is looked up. -/
theorem sought {tag : Tag} (h : Grown added n n') (hm : tag ∈ Tag.sought) :
    Option.Rel (Grown added) (n.childOfTag tag) (n'.childOfTag tag) :=
  h.childOfTag fun same => unsought (same ▸ hm)

theorem exists_childOfTag {tag : Tag} (h : Grown added n n') (hm : tag ∈ Tag.sought)
    (found : n.childOfTag tag = some c) :
    ∃ c', n'.childOfTag tag = some c' ∧ Grown added c c' :=
  exists_of_rel_some (found ▸ h.sought unsought hm)

theorem alias?_eq (h : Grown added n n') : n'.alias? = n.alias? := by
  have names : Option.Rel (Grown added) (n.childOfTag .aliasName) (n'.childOfTag .aliasName) :=
    h.sought unsought (by decide)
  unfold alias?
  generalize n.childOfTag .aliasName = x at names
  generalize n'.childOfTag .aliasName = y at names
  cases names with
  | none => rfl
  | some grown => rw [Option.bind_some, Option.bind_some, grown.data]

theorem namedColumn?_eq (h : Grown added n n') : n'.namedColumn? = n.namedColumn? := by
  rw [namedColumn?, namedColumn?, h.alias?_eq unsought, h.key]

theorem exposedColumns_subset (h : Grown added n n') : n.exposedColumns ⊆ n'.exposedColumns := by
  intro column hcolumn
  unfold exposedColumns at hcolumn ⊢
  cases first : n.childOfTag .columns with
  | none => simp [first] at hcolumn
  | some columns =>
    obtain ⟨columns', first', grown⟩ := h.exists_childOfTag unsought (by decide) first
    rw [first] at hcolumn
    rw [first']
    obtain ⟨c, hc, named⟩ := List.mem_filterMap.1 hcolumn
    obtain ⟨hm, tag⟩ := List.mem_filter.1 hc
    obtain ⟨c', hm', same⟩ := grown.children.exists_of_mem hm
    refine List.mem_filterMap.2 ⟨c', List.mem_filter.2 ⟨hm', ?_⟩, ?_⟩
    · rwa [same.tag]
    · rwa [same.namedColumn?_eq unsought]

theorem cteTable?_rel (h : Grown added n n') :
    Option.Rel Schema.Table.Wider n.cteTable? n'.cteTable? := by
  have selects : Option.Rel (Grown added) (n.childOfTag .select) (n'.childOfTag .select) :=
    h.sought unsought (by decide)
  unfold cteTable?
  rw [h.alias?_eq unsought, h.key]
  cases n.alias? with
  | none => exact .none
  | some name =>
    generalize n.childOfTag .select = x at selects
    generalize n'.childOfTag .select = y at selects
    cases selects with
    | none => exact .none
    | some grown => exact .some ⟨rfl, List.map_subset _ (grown.exposedColumns_subset unsought)⟩

/-- The tables of CTEs are wider, with that of the added one in between. -/
theorem cteTables_wider {nodes nodes' : List Node}
    (h : Spread (Grown added) (· = added) nodes nodes') :
    Schema.Wider added.key ⟨cteTables nodes⟩ ⟨cteTables nodes'⟩ := by
  unfold Schema.Wider cteTables
  rw [List.filterMap_filter, List.filterMap_filter]
  refine h.filterMap (fun cte cte' grown => ?_) ?_
  · rw [grown.tag]
    split
    · exact grown.cteTable?_rel unsought
    · exact .none
  · rintro cte table rfl found
    split at found
    · exact (cteTable?_eq_some found).1
    · cases found

theorem ownSchema_wider (h : Grown added n n') : n.ownSchema.Wider added.key n'.ownSchema := by
  have ctes : Option.Rel (Grown added) (n.childOfTag .ctes) (n'.childOfTag .ctes) :=
    h.sought unsought (by decide)
  unfold ownSchema
  generalize n.childOfTag .ctes = x at ctes
  generalize n'.childOfTag .ctes = y at ctes
  cases ctes with
  | none => exact .refl _ _
  | some grown => exact cteTables_wider unsought grown.children

theorem exists_source (h : Grown added select select') (hs : source ∈ select.sources) :
    ∃ source' ∈ select'.sources, Grown added source source' := by
  obtain ⟨clause, first, held⟩ := mem_sources.1 hs
  obtain ⟨clause', first', grown⟩ := h.exists_childOfTag unsought (by decide) first
  rcases held with table | ⟨join, hj, joinTag, table⟩
  · obtain ⟨source', table', same⟩ := grown.exists_childOfTag unsought (by decide) table
    exact ⟨source', mem_sources.2 ⟨clause', first', .inl table'⟩, same⟩
  · obtain ⟨join', hj', joined⟩ := grown.children.exists_of_mem hj
    obtain ⟨source', table', same⟩ := joined.exists_childOfTag unsought (by decide) table
    refine ⟨source', mem_sources.2 ⟨clause', first', .inr ⟨join', hj', ?_, table'⟩⟩, same⟩
    rw [joined.tag, joinTag]

end Grown

end Node

/-! ## Wider scopes -/

/-- The second scope has all that the first one has, and besides only tables of a
key that means no table in the first one. -/
structure Scope.Wider (key : Key) (scope scope' : Scope) : Prop where
  schema : scope'.schema = scope.schema
  localSchema : scope.localSchema.Wider key scope'.localSchema
  offer : scope.offer.columns ⊆ scope'.offer.columns
  absent : ∀ table ∈ scope.visibleTables, table.key ≠ key

/-- A link of a tree next to the same link after the tree has grown. -/
structure Link.Grown (added : Node) (link link' : Link) : Prop where
  parent : Node.Grown added link.parent link'.parent
  before : Spread (Node.Grown added) (· = added) link.before link'.before
  child : Node.Grown added link.child link'.child

namespace Link.Grown

variable {added : Node} {link link' : Link}

theorem opens_iff (h : Grown added link link') : link'.Opens ↔ link.Opens := by
  rw [Opens, Opens, h.parent.tag, h.child.tag]

theorem ownSchema?_wider (unsought : added.tag ∉ Tag.sought) (h : Grown added link link') :
    Option.Rel (Schema.Wider added.key) link.ownSchema? link'.ownSchema? := by
  unfold ownSchema?
  rw [h.parent.tag, h.child.tag]
  split
  · exact .some (h.parent.ownSchema_wider unsought)
  · split
    · exact .some (Node.Grown.cteTables_wider unsought h.before)
    · exact .none

end Link.Grown

namespace Scope.Wider

variable {added source source' select select' : Node} {key pick : Key} {scope scope' : Scope}
  {table : Schema.Table}

/-- What was found is found again; no table that came in between has its key. -/
theorem findTable? (wider : Wider key scope scope') (found : scope.findTable? pick = some table) :
    ∃ table', scope'.findTable? pick = some table' ∧ table.Wider table' := by
  have visible : Spread Schema.Table.Wider (·.key = key) scope.visibleTables
      scope'.visibleTables := by
    unfold visibleTables
    rw [wider.schema]
    exact wider.localSchema.append (Schema.Wider.refl key scope.schema)
  have named : table.key = pick := by simpa using List.find?_some found
  have other : pick ≠ key := named ▸ wider.absent table (List.mem_of_find?_eq_some found)
  refine exists_of_rel_some (found ▸ visible.find? (fun t t' wide => by rw [wide.key]) ?_)
  rintro t rfl
  exact decide_eq_false other.symm

theorem sourceColumns_subset (unsought : added.tag ∉ Tag.sought) (wider : Wider key scope scope')
    (grown : Node.Grown added source source') :
    source.sourceColumns scope ⊆ source'.sourceColumns scope' := by
  intro column hcolumn
  unfold Node.sourceColumns at hcolumn ⊢
  cases found : source.sourceTable? scope with
  | none => simp [found] at hcolumn
  | some table =>
    obtain ⟨pick, picked, hfound⟩ := Option.bind_eq_some_iff.1 found
    obtain ⟨table', hfound', wide⟩ := wider.findTable? hfound
    have found' : source'.sourceTable? scope' = some table' := by
      rw [Node.sourceTable?, grown.data, picked]
      exact hfound'
    rw [found] at hcolumn
    rw [found', grown.alias?_eq unsought]
    exact List.map_subset _ (List.filter_subset _ wide.columns) hcolumn

theorem offered_subset (unsought : added.tag ∉ Tag.sought) (wider : Wider key scope scope')
    (grown : Node.Grown added select select') :
    (select.offered scope).columns ⊆ (select'.offered scope').columns := by
  intro column hcolumn
  obtain ⟨source, hs, hc⟩ := List.mem_flatMap.1 hcolumn
  obtain ⟨source', hs', same⟩ := grown.exists_source unsought hs
  exact List.mem_flatMap.2 ⟨source', hs', wider.sourceColumns_subset unsought same hc⟩

/-- One link further down. -/
theorem enter {link link' : Link} {after : List Node} (unsought : added.tag ∉ Tag.sought)
    (fresh : added.key ∉ link.parent.keys)
    (hs : link.parent.children = link.before ++ link.child :: after)
    (grown : Link.Grown added link link') (wider : Wider added.key scope scope') :
    Wider added.key (scope.enter link) (scope'.enter link') := by
  have brought := grown.ownSchema?_wider unsought
  refine ⟨wider.schema, ?_, ?_, ?_⟩
  · show Schema.Wider added.key (link.ownSchema?.getD _) (link'.ownSchema?.getD _)
    generalize link.ownSchema? = x at brought
    generalize link'.ownSchema? = y at brought
    cases brought with
    | none => exact wider.localSchema
    | some wide => exact wide
  · unfold Scope.enter
    by_cases opens : link.Opens
    · rw [if_pos opens, if_pos (grown.opens_iff.2 opens)]
      exact wider.offered_subset unsought grown.parent
    · rw [if_neg opens, if_neg fun h => opens (grown.opens_iff.1 h)]
      exact wider.offer
  · -- tables that come into force are those of nodes further down, which are not the added one
    intro table ht same
    rcases List.mem_append.1 ht with own | listed
    · cases brings : link.ownSchema? with
      | none =>
        rw [Scope.enter, brings] at own
        exact wider.absent table (List.mem_append_left _ own) same
      | some schema =>
        rw [Scope.enter, brings] at own
        obtain ⟨cte, below, key⟩ := Node.below_of_ownSchema hs brings own
        exact fresh (same ▸ key ▸ Node.key_mem_keys below.mem_preorder)
    · exact wider.absent table (List.mem_append_right _ listed) same

/-- A pick that dangles in the wider scope dangled before. -/
theorem danglingPick? {n n' : Node} {d : Dangling} (wider : Wider key scope scope')
    (grown : Node.Grown added n n') (h : n'.danglingPick? scope' = some d) :
    n.danglingPick? scope = some d := by
  obtain ⟨pick, picked, reason⟩ := Node.danglingPick?_eq_some.1 h
  rw [grown.data] at picked reason
  rw [grown.tag, grown.key] at reason
  refine Node.danglingPick?_eq_some.2 ⟨pick, picked, ?_⟩
  rcases reason with ⟨tag, missing, rfl⟩ | ⟨tag, plain, missing, rfl⟩
  · refine .inl ⟨tag, ?_, rfl⟩
    by_contra found
    obtain ⟨table, hfound⟩ := Option.ne_none_iff_exists'.1 found
    obtain ⟨table', hfound', -⟩ := wider.findTable? hfound
    rw [hfound'] at missing
    cases missing
  · refine .inr ⟨tag, plain, ?_, rfl⟩
    exact List.find?_eq_none.2 fun column hc =>
      List.find?_eq_none.1 missing column (wider.offer hc)

end Scope.Wider

namespace Node

/-! ## The whole tree -/

/-- The way down to a node is still there when the tree has grown, and leads to a wider scope. -/
theorem Grown.exists_lineage {added n n' m : Node} {links : List Link} {scope scope' : Scope}
    (unsought : added.tag ∉ Tag.sought) (lineage : Lineage n links m) (fresh : added.key ∉ n.keys)
    (grown : Grown added n n') (wider : scope.Wider added.key scope') :
    ∃ links' m', Lineage n' links' m' ∧ Grown added m m' ∧
      (links.foldl Scope.enter scope).Wider added.key (links'.foldl Scope.enter scope') := by
  induction lineage generalizing n' scope scope' with
  | self n => exact ⟨[], n', .self n', grown, wider⟩
  | @step n c m before after links hs rest ih =>
    have spread := grown.children
    rw [hs] at spread
    obtain ⟨before', c', after', hs', front, child⟩ := spread.split
    have freshBelow : added.key ∉ c.keys := by
      intro hk
      rw [keys_eq, hs] at fresh
      exact fresh (by simp [hk])
    have link : Link.Grown added ⟨n, before, c⟩ ⟨n', before', c'⟩ := ⟨grown, front, child⟩
    obtain ⟨links', m', rest', same, wide⟩ :=
      ih freshBelow child (wider.enter unsought fresh hs link)
    exact ⟨_, m', .step hs' rest', same, wide⟩

/-- A pick of an old node that dangles in the grown tree dangled before. -/
theorem Grown.mem_dangling {added root new : Node} {base : Scope} {d : Dangling}
    (unsought : added.tag ∉ Tag.sought) (grown : Grown added root new) (distinct : root.Distinct)
    (newDistinct : new.Distinct) (fresh : added.key ∉ root.keys)
    (unlisted : ∀ table ∈ base.visibleTables, table.key ≠ added.key) (hd : d ∈ new.dangling base)
    (old : d.node ∈ root.keys) : d ∈ root.dangling base := by
  rw [newDistinct.dangling_eq] at hd
  obtain ⟨⟨n, inner⟩, hn, pick⟩ := List.mem_filterMap.1 hd
  obtain ⟨m, hm, key⟩ := List.mem_map.1 old
  obtain ⟨links, lineage⟩ := Lineage.exists_of_mem hm
  obtain ⟨links', m', lineage', same, wider⟩ := grown.exists_lineage unsought lineage fresh
    ⟨rfl, .refl added.key base.localSchema, List.Subset.refl _, unlisted⟩
  have hm' : (m', links'.foldl Scope.enter base) ∈ new.scopedPreorder base :=
    mem_scopedPreorder_iff_lineage.2 ⟨links', lineage', rfl⟩
  -- what has grown from the old node is the node with the dangling pick
  have sameKey : m'.key = n.key := by
    rw [same.key, key, danglingPick?_node pick]
  obtain ⟨rfl, rfl⟩ := Prod.mk.inj (newDistinct.entry_eq hm' hn sameKey)
  rw [distinct.dangling_eq]
  exact List.mem_filterMap.2 ⟨_, mem_scopedPreorder_iff_lineage.2 ⟨links, lineage, rfl⟩,
    wider.danglingPick? same pick⟩

/-- Where a node can be added, the tree grows by it, and keys stay distinct if those
of the node are distinct and not in use. -/
theorem exists_addChildAt {root t : Node} {path : List Key} (added : Node) (place : Place)
    (located : root.locate path = .ok t) :
    ∃ new, root.addChildAt path added place = .ok new ∧ Grown added root new ∧
      (root.Distinct → added.Distinct → (∀ key ∈ added.keys, key ∉ root.keys) → new.Distinct) := by
  obtain ⟨nonempty, ht⟩ := locate_eq_ok.1 located
  obtain ⟨new, hr⟩ := exists_replaceBelow ht (t.addChild added place)
  refine ⟨new, ?_, .of_replaceBelow ht hr, fun distinct addedDistinct fresh => ?_⟩
  · rw [addChildAt, located]
    exact replaceAt_eq_ok.2 ⟨nonempty, hr⟩
  · have mem : t ∈ root.preorder := descend_mem ht
    refine (distinct.replaceBelow ht (tag_addChild t added place) hr).2 ⟨?_, ?_⟩
    · refine (distinct.of_mem mem).addChild addedDistinct (fun key hk inside => ?_) place
      exact fresh key hk (keys_subset mem inside)
    · intro key hk used
      exact (mem_keys_addChild.1 hk).resolve_left fun hadded => fresh key hadded used

/-- A column, join or CTE with keys of its own, added at either end of the children
of any node, leaves no pick of another node dangling that did not dangle before. -/
theorem addChild_keeps_resolved {root t added : Node} {base : Scope} {path : List Key}
    {part : Part} (distinct : root.Distinct) (tag : added.tag = part.tag)
    (addedDistinct : added.Distinct)
    (fresh : ∀ key ∈ added.keys, key ∉ root.keys ∧ ∀ table ∈ base.visibleTables, table.key ≠ key)
    (located : root.locate path = .ok t) (place : Place) :
    ∃ new, root.addChildAt path added place = .ok new ∧
      ∀ d ∈ new.dangling base, d.node ∈ root.keys → d ∈ root.dangling base := by
  obtain ⟨new, result, grown, keepsDistinct⟩ := exists_addChildAt added place located
  have newDistinct : new.Distinct :=
    keepsDistinct distinct addedDistinct fun key hk => (fresh key hk).1
  obtain ⟨freshKey, unlisted⟩ := fresh added.key (key_mem_keys added.self_mem_preorder)
  refine ⟨new, result, fun d hd old => ?_⟩
  exact grown.mem_dangling (tag ▸ part.tag_not_mem_sought) distinct newDistinct freshKey unlisted
    hd old

def monthly : Node :=
  namedCte "monthly" (selectFrom "months" [pickedColumn "month" "day"] "recent")

/-- A third CTE, put before the two, is in scope of both. The table that dangles
afterwards did so before. -/
theorem recentWeeks_with_monthly :
    recentWeeks.Distinct ∧ monthly.tag = Part.cte.tag ∧ monthly.Distinct ∧
      (∀ key ∈ monthly.keys, key ∉ recentWeeks.keys ∧
        ∀ table ∈ ({} : Scope).visibleTables, table.key ≠ key) ∧
      ∃ new, recentWeeks.addChildAt [⟨"query"⟩, ⟨"ctes"⟩] monthly .front = .ok new ∧
        .table ⟨"days.table"⟩ ⟨"orders"⟩ ∈ new.dangling {} ∧
        .table ⟨"days.table"⟩ ⟨"orders"⟩ ∈ recentWeeks.dangling {} := by
  have distinct : recentWeeks.Distinct := by decide
  have fresh : ∀ key ∈ monthly.keys, key ∉ recentWeeks.keys ∧
      ∀ table ∈ ({} : Scope).visibleTables, table.key ≠ key := by decide
  have located : recentWeeks.locate [⟨"query"⟩, ⟨"ctes"⟩] = .ok recentAndWeekly := rfl
  obtain ⟨new, added, kept⟩ :=
    addChild_keeps_resolved distinct (show monthly.tag = Part.cte.tag from rfl) (by decide)
      fresh located .front
  have result : recentWeeks.withChildren
      [recentAndWeekly.addChild monthly .front, fromWeekly] = new := Except.ok.inj added
  have dangles : .table ⟨"days.table"⟩ ⟨"orders"⟩ ∈ new.dangling {} := by
    rw [← result]
    decide
  exact ⟨distinct, rfl, by decide, fresh, new, added, dangles, kept _ dangles (by decide)⟩

end Node

end QueryTree
