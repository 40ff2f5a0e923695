import QueryTree.Gesture
import QueryTree.Proofs.CteModularity
import QueryTree.Scope.Dangling

/-! Names do not decide what can be resolved. Resolving compares keys and asks of a
name only whether there is one, so it commutes with every map of names that keeps
empty names empty and others not. All that is read of payloads is the texts of
aliases and the picks of tables. Two trees that differ by other names therefore have
the same tables and columns in scope everywhere, by key, and the same dangling picks. -/

namespace QueryTree

/-! ## Renamed tables -/

/-- The same table column under another name. -/
def Schema.Column.rename (ρ : String → String) (c : Schema.Column) : Schema.Column :=
  { c with qualifier := c.qualifier.map ρ, name := ρ c.name }

def Schema.Table.rename (ρ : String → String) (t : Schema.Table) : Schema.Table :=
  { t with name := ρ t.name, columns := t.columns.map (·.rename ρ) }

def Schema.rename (ρ : String → String) (s : Schema) : Schema := ⟨s.tables.map (·.rename ρ)⟩

def Offer.rename (ρ : String → String) (o : Offer) : Offer := ⟨o.columns.map (·.rename ρ)⟩

namespace Scope

/-- Every name of the scope is mapped. -/
def rename (ρ : String → String) (scope : Scope) : Scope where
  schema := scope.schema.rename ρ
  localSchema := scope.localSchema.rename ρ
  offer := scope.offer.rename ρ

variable (ρ : String → String) (scope : Scope) (key : Key)

theorem findTable?_rename : (scope.rename ρ).findTable? key =
    (scope.findTable? key).map (·.rename ρ) := by
  have tables : (scope.rename ρ).visibleTables = scope.visibleTables.map (·.rename ρ) := by
    simp [visibleTables, rename, Schema.rename]
  rw [findTable?, findTable?, tables, List.find?_map]
  rfl

theorem findColumn?_rename : (scope.rename ρ).findColumn? key =
    (scope.findColumn? key).map (·.rename ρ) := by
  rw [findColumn?, findColumn?, Offer.find?, Offer.find?, rename, Offer.rename, List.find?_map]
  rfl

/-- Scopes that differ by names only resolve the same keys. -/
theorem resolves_iff_of_rename_eq {ρ : String → String} {before after : Scope}
    (h : after.rename ρ = before.rename ρ) (key : Key) :
    ((after.findTable? key).isSome ↔ (before.findTable? key).isSome) ∧
      ((after.findColumn? key).isSome ↔ (before.findColumn? key).isSome) := by
  have table := before.findTable?_rename ρ key
  have column := before.findColumn?_rename ρ key
  rw [← h, findTable?_rename] at table
  rw [← h, findColumn?_rename] at column
  rw [← Option.isSome_map (f := (·.rename ρ)), table, Option.isSome_map,
    ← Option.isSome_map (x := after.findColumn? key) (f := (·.rename ρ)), column,
    Option.isSome_map]
  exact ⟨Iff.rfl, Iff.rfl⟩

end Scope

namespace Node

/-! ## Trees with other payloads -/

mutual

/-- The same tree with a payload made of the old one at every node. -/
def mapData (f : Tag → Payload → Payload) : Node → Node
  | ⟨key, tag, data, none⟩ => ⟨key, tag, f tag data, none⟩
  | ⟨key, tag, data, some kids⟩ => ⟨key, tag, f tag data, some (mapDataAll f kids)⟩

def mapDataAll (f : Tag → Payload → Payload) : List Node → List Node
  | [] => []
  | n :: ns => mapData f n :: mapDataAll f ns

end

section MapData

variable (f : Tag → Payload → Payload) (n : Node) (tag : Tag) (key : Key)

theorem mapDataAll_eq_map (ns : List Node) : mapDataAll f ns = ns.map (mapData f) := by
  induction ns with
  | nil => rfl
  | cons n ns ih => rw [mapDataAll, ih, List.map_cons]

@[simp] theorem key_mapData : (n.mapData f).key = n.key := by
  obtain ⟨_, _, _, _ | _⟩ := n <;> rfl

@[simp] theorem tag_mapData : (n.mapData f).tag = n.tag := by
  obtain ⟨_, _, _, _ | _⟩ := n <;> rfl

@[simp] theorem data_mapData : (n.mapData f).data = f n.tag n.data := by
  obtain ⟨_, _, _, _ | _⟩ := n <;> rfl

@[simp] theorem children_mapData : (n.mapData f).children = n.children.map (mapData f) := by
  obtain ⟨_, _, _, _ | kids⟩ := n
  · rfl
  · exact mapDataAll_eq_map f kids

theorem mapData_withChildren (ns : List Node) :
    (n.withChildren ns).mapData f = (n.mapData f).withChildren (ns.map (mapData f)) := by
  obtain ⟨_, _, _, _ | _⟩ := n
  · simp [withChildren, mapData, mapDataAll_eq_map]
  · simp [withChildren, mapData, mapDataAll_eq_map]

theorem preorder_mapData : (n.mapData f).preorder = n.preorder.map (mapData f) := by
  induction n using children_induction with
  | step n ih =>
    rw [preorder_eq, preorder_eq n, children_mapData, List.flatMap_map, List.map_cons,
      List.map_flatMap]
    exact congrArg _ (List.flatMap_congr ih)

theorem mapData_withData (data : Payload) :
    (n.withData data).mapData f = (n.mapData f).withData (f n.tag data) := by
  obtain ⟨_, _, _, _ | _⟩ := n <;> rfl

theorem childOfTag_mapData :
    (n.mapData f).childOfTag tag = (n.childOfTag tag).map (mapData f) := by
  rw [childOfTag, children_mapData, List.find?_map, childOfTag]
  simp only [Function.comp_def, tag_mapData]

theorem childrenOfTag_mapData :
    (n.mapData f).childrenOfTag tag = (n.childrenOfTag tag).map (mapData f) := by
  rw [childrenOfTag, children_mapData, List.filter_map, childrenOfTag]
  simp only [Function.comp_def, tag_mapData]

theorem sources_mapData : (n.mapData f).sources = n.sources.map (mapData f) := by
  rw [sources, childOfTag_mapData, sources]
  cases n.childOfTag .fromClause with
  | none => rfl
  | some clause =>
    show ((clause.mapData f) :: (clause.mapData f).childrenOfTag .join).filterMap
      (·.childOfTag .table) = _
    rw [childrenOfTag_mapData, ← List.map_cons, List.filterMap_map, List.map_filterMap]
    exact List.filterMap_congr fun c _ => childOfTag_mapData f c .table

/-- Exchanging a node for one that looks the same under the map is not seen. -/
theorem mapData_replaceBelow {t r new : Node} {keys : List Key} (ht : n.descend keys = some t)
    (same : r.mapData f = t.mapData f) (h : replaceBelow r n keys = .ok new) :
    new.mapData f = n.mapData f := by
  refine replaceBelow_induction (fun n before c c' after hs below => ?_) ht same h
  have rebuilt : n.withChildren (before ++ c :: after) = n := by
    rw [← hs]
    exact withChildren_children (by simp [hs])
  calc (n.withChildren (before ++ c' :: after)).mapData f
      = (n.withChildren (before ++ c :: after)).mapData f := by
        rw [mapData_withChildren, mapData_withChildren, List.map_append, List.map_append,
          List.map_cons, List.map_cons, below]
    _ = n.mapData f := by rw [rebuilt]

end MapData

/-! ## Resolving under a map of names -/

/-- Payloads are mapped so that aliases take the mapped names and tables keep their
picks; no name becomes empty and no empty text a name. -/
structure Renames (ρ : String → String) (f : Tag → Payload → Payload) : Prop where
  name : ∀ text, ρ text = "" ↔ text = ""
  text : ∀ data, (f .aliasName data).alias? = data.alias?.map ρ
  pick : ∀ data, (f .table data).picked? = data.picked?

namespace Renames

variable {ρ : String → String} {f : Tag → Payload → Payload} (h : Renames ρ f)
  (scope : Scope) (n : Node)
include h

theorem alias?_mapData : (n.mapData f).alias? = n.alias?.map ρ := by
  rw [alias?, childOfTag_mapData, alias?]
  cases first : n.childOfTag .aliasName with
  | none => rfl
  | some c =>
    have tag : c.tag = .aliasName := tag_of_childOfTag first
    simp [tag, h.text]

theorem namedColumn?_mapData : (n.mapData f).namedColumn? = n.namedColumn?.map (·.rename ρ) := by
  rw [namedColumn?, h.alias?_mapData, namedColumn?, key_mapData]
  cases n.alias? <;> rfl

theorem exposedColumns_mapData :
    (n.mapData f).exposedColumns = n.exposedColumns.map (·.rename ρ) := by
  rw [exposedColumns, childOfTag_mapData, exposedColumns]
  cases n.childOfTag .columns with
  | none => rfl
  | some columns =>
    show ((columns.mapData f).childrenOfTag .column).filterMap namedColumn? =
      ((columns.childrenOfTag .column).filterMap namedColumn?).map (·.rename ρ)
    rw [childrenOfTag_mapData, List.filterMap_map, List.map_filterMap]
    exact List.filterMap_congr fun c _ => h.namedColumn?_mapData c

theorem cteTable?_mapData : (n.mapData f).cteTable? = n.cteTable?.map (·.rename ρ) := by
  unfold cteTable?
  rw [h.alias?_mapData, childOfTag_mapData]
  cases n.alias? with
  | none => rfl
  | some name =>
    cases n.childOfTag .select with
    | none => rfl
    | some select =>
      simp [Schema.Table.rename, h.exposedColumns_mapData, Schema.Column.rename,
        Schema.Column.withQualifier]

theorem cteTables_mapData (ns : List Node) :
    cteTables (ns.map (mapData f)) = (cteTables ns).map (·.rename ρ) := by
  rw [cteTables, List.filter_map, List.filterMap_map, cteTables, List.map_filterMap]
  simp only [Function.comp_def, tag_mapData]
  exact List.filterMap_congr fun c _ => h.cteTable?_mapData c

theorem ownSchema_mapData : (n.mapData f).ownSchema = n.ownSchema.rename ρ := by
  rw [ownSchema, childOfTag_mapData, ownSchema]
  cases n.childOfTag .ctes with
  | none => rfl
  | some ctes =>
    show (⟨cteTables (ctes.mapData f).children⟩ : Schema) = _
    rw [children_mapData, h.cteTables_mapData]
    rfl

/-- A source offers the same columns under the mapped names. -/
theorem sourceColumns_mapData (tag : n.tag = .table) :
    (n.mapData f).sourceColumns (scope.rename ρ) =
      (n.sourceColumns scope).map (·.rename ρ) := by
  have found : (n.mapData f).sourceTable? (scope.rename ρ) =
      (n.sourceTable? scope).map (·.rename ρ) := by
    rw [sourceTable?, data_mapData, tag, h.pick, sourceTable?]
    cases n.data.picked? with
    | none => rfl
    | some key => exact scope.findTable?_rename ρ key
  rw [sourceColumns, found, h.alias?_mapData, sourceColumns]
  cases n.sourceTable? scope with
  | none => rfl
  | some table =>
    show (((table.columns.map (·.rename ρ)).filter (·.name ≠ "")).map _) = _
    have named (c : Schema.Column) : (c.rename ρ).name = "" ↔ c.name = "" := h.name c.name
    rw [List.filter_map, List.map_map, List.map_map]
    simp only [Function.comp_def, ne_eq, named]
    cases n.alias? <;> rfl

theorem offered_mapData :
    (n.mapData f).offered (scope.rename ρ) = (n.offered scope).rename ρ := by
  rw [offered, sources_mapData, offered, Offer.rename, List.flatMap_map, List.map_flatMap]
  refine congrArg Offer.mk (List.flatMap_congr fun source hs => ?_)
  exact h.sourceColumns_mapData scope source (tag_of_mem_sources hs)

/-! ## Scopes -/

theorem cteScopes_mapData (earlier : List Schema.Table) (ctes : List Node) :
    cteScopes (scope.rename ρ) (earlier.map (·.rename ρ)) (ctes.map (mapData f)) =
      (cteScopes scope earlier ctes).map (Scope.rename ρ) := by
  induction ctes generalizing earlier with
  | nil => rfl
  | cons cte ctes ih =>
    have own : cteTables [cte.mapData f] = (cteTables [cte]).map (·.rename ρ) :=
      h.cteTables_mapData [cte]
    rw [List.map_cons, cteScopes, own, ← List.map_append, ih, cteScopes, List.map_cons]
    rfl

theorem childScopes_mapData :
    (n.mapData f).childScopes (scope.rename ρ) = (n.childScopes scope).map (Scope.rename ρ) := by
  unfold childScopes
  rw [tag_mapData, children_mapData]
  split
  · rw [h.ownSchema_mapData, List.map_map, List.map_map]
    refine List.map_congr_left fun c _ => ?_
    simp only [Function.comp_apply, tag_mapData]
    split <;> rfl
  · exact h.cteScopes_mapData scope [] n.children
  · rw [h.offered_mapData, List.map_map, List.map_map]
    refine List.map_congr_left fun c _ => ?_
    simp only [Function.comp_apply, tag_mapData]
    split <;> rfl
  · rw [List.map_map, List.map_map]
    rfl

theorem scopedChildren_mapData : (n.mapData f).scopedChildren (scope.rename ρ) =
    (n.scopedChildren scope).map (Prod.map (mapData f) (Scope.rename ρ)) := by
  rw [scopedChildren, h.childScopes_mapData, children_mapData, List.zip_map, scopedChildren]

/-- The scope at the end of a path is that of the other tree, renamed. -/
theorem scopeBelow_mapData (keys : List Key) : (n.mapData f).scopeBelow (scope.rename ρ) keys =
    (n.scopeBelow scope keys).map (Scope.rename ρ) := by
  induction keys generalizing n scope with
  | nil => rw [scopeBelow, scopeBelow, Option.map_some]
  | cons key keys ih =>
    rw [scopeBelow, h.scopedChildren_mapData, List.find?_map, scopeBelow]
    simp only [Function.comp_def, Prod.map_fst, key_mapData]
    cases (n.scopedChildren scope).find? (·.1.key = key) with
    | none => rfl
    | some entry => exact ih entry.2 entry.1

theorem scopeAt_mapData (path : List Key) : (n.mapData f).scopeAt (scope.rename ρ) path =
    (n.scopeAt scope path).map (Scope.rename ρ) := by
  cases path with
  | nil => rfl
  | cons key keys =>
    rw [scopeAt, scopeAt, key_mapData]
    split
    · exact h.scopeBelow_mapData scope n keys
    · rfl

theorem scopedPreorder_mapData : (n.mapData f).scopedPreorder (scope.rename ρ) =
    (n.scopedPreorder scope).map (Prod.map (mapData f) (Scope.rename ρ)) := by
  induction n using children_induction generalizing scope with
  | step n ih =>
    rw [scopedPreorder_eq, h.scopedChildren_mapData, List.flatMap_map, scopedPreorder_eq,
      List.map_cons, List.map_flatMap]
    refine congrArg _ (List.flatMap_congr fun entry he => ?_)
    refine ih entry.1 ?_ entry.2
    rw [← map_fst_scopedChildren scope n]
    exact List.mem_map_of_mem he

theorem get?_scopes_mapData (key : Key) : ((n.mapData f).scopes (scope.rename ρ)).get? key =
    ((n.scopes scope).get? key).map (Scope.rename ρ) := by
  rw [scopes, scopes, KeyMap.get?_ofList, KeyMap.get?_ofList, h.scopedPreorder_mapData,
    List.map_map, ← List.map_reverse, ← List.map_reverse]
  generalize (n.scopedPreorder scope).reverse = entries
  induction entries with
  | nil => rfl
  | cons entry entries ih =>
    rw [List.map_cons, List.map_cons, List.lookup_cons, List.lookup_cons, ih]
    simp only [Function.comp_apply, Prod.map_fst, key_mapData]
    split <;> rfl

/-! ## Dangling picks -/

/-- Where picks and raw flags are kept, the same picks dangle. -/
theorem dangling_mapData (kept : ∀ tag data, (f tag data).picked? = data.picked? ∧
    (f tag data).isRaw = data.isRaw) :
    (n.mapData f).dangling (scope.rename ρ) = n.dangling scope := by
  have judged (m : Node) (inner : Scope) :
      (m.mapData f).danglingPick? (inner.rename ρ) = m.danglingPick? inner := by
    unfold danglingPick?
    rw [data_mapData, (kept m.tag m.data).1, (kept m.tag m.data).2, tag_mapData, key_mapData]
    simp only [Scope.findTable?_rename, Scope.findColumn?_rename, Option.isNone_map]
  rw [dangling, preorder_mapData, List.filterMap_map, dangling]
  refine List.filterMap_congr fun m _ => ?_
  rw [Function.comp_apply, key_mapData, h.get?_scopes_mapData]
  cases (n.scopes scope).get? m.key with
  | none => rfl
  | some inner => exact judged m inner

end Renames

/-! ## Another text for an alias -/

/-- Maps the texts of aliases. -/
def renameAlias (ρ : String → String) (tag : Tag) (data : Payload) : Payload :=
  if tag = .aliasName then { data with aliasText := data.aliasText.map ρ } else data

theorem renames_renameAlias {ρ : String → String} (name : ∀ text, ρ text = "" ↔ text = "") :
    Renames ρ (renameAlias ρ) where
  name := name
  text data := by
    unfold renameAlias Payload.alias?
    rw [if_pos rfl]
    cases data.aliasText with
    | none => rfl
    | some text =>
      by_cases empty : text = ""
      · simp [Option.filter, empty, (name "").2 rfl]
      · simp [Option.filter, empty, name]
  pick data := by
    unfold renameAlias
    rw [if_neg (by decide)]

/-- All names look alike, and an empty name like none. -/
def veil (text : String) : String := if text = "" then "" else "_"

theorem veil_eq_empty (text : String) : veil text = "" ↔ text = "" := by
  unfold veil
  split <;> simp [*]

/-- Another name for something that has a name is not seen under the veil. -/
theorem mapData_setAlias {t : Node} {old text : String} (tag : t.tag = .aliasName)
    (named : t.data.alias? = some old) (nonempty : text ≠ "") :
    (t.withData ((PayloadEdit.setAlias text).apply t.data)).mapData (renameAlias veil) =
      t.mapData (renameAlias veil) := by
  obtain ⟨was, hold⟩ := Payload.alias?_eq_some_iff.1 named
  have unseen : renameAlias veil t.tag ((PayloadEdit.setAlias text).apply t.data) =
      renameAlias veil t.tag t.data := by
    simp [renameAlias, tag, PayloadEdit.apply, was, veil, hold, nonempty]
  rw [mapData_withData, unseen]
  obtain ⟨_, _, _, _ | _⟩ := t <;> rfl

theorem rel_of_map_eq {α β : Type} {f : α → β} {R : α → α → Prop} {x y : Option α}
    (imp : ∀ a b, f b = f a → R a b) (h : y.map f = x.map f) : Option.Rel R x y := by
  cases x with
  | none =>
    cases y with
    | none => exact .none
    | some b => cases h
  | some a =>
    cases y with
    | none => cases h
    | some b => exact .some (imp a b (Option.some.inj h))

/-- Trees that look the same under the veil resolve the same. -/
theorem references_of_veiled_eq {root new : Node}
    (same : new.mapData (renameAlias veil) = root.mapData (renameAlias veil)) (base : Scope) :
    new.dangling base = root.dangling base ∧
      ∀ q, Option.Rel (fun before after => ∀ key,
          ((after.findTable? key).isSome ↔ (before.findTable? key).isSome) ∧
          ((after.findColumn? key).isSome ↔ (before.findColumn? key).isSome))
        (root.scopeAt base q) (new.scopeAt base q) := by
  have veiled : Renames veil (renameAlias veil) := renames_renameAlias veil_eq_empty
  refine ⟨?_, fun q => ?_⟩
  · have kept (tag : Tag) (data : Payload) : (renameAlias veil tag data).picked? = data.picked? ∧
        (renameAlias veil tag data).isRaw = data.isRaw := by
      unfold renameAlias
      split <;> exact ⟨rfl, rfl⟩
    rw [← veiled.dangling_mapData base new kept, same, veiled.dangling_mapData base root kept]
  · have scopes : (new.scopeAt base q).map (Scope.rename veil) =
        (root.scopeAt base q).map (Scope.rename veil) := by
      rw [← veiled.scopeAt_mapData base new q, same, veiled.scopeAt_mapData base root q]
    exact rel_of_map_eq (fun _ _ => Scope.resolves_iff_of_rename_eq) scopes

/-- Giving an alias another name leaves the same picks dangling, and the same tables
and columns in scope at every path. -/
theorem setAlias_keeps_references {root t : Node} {path : List Key} {old text : String}
    (located : root.locate path = .ok t) (tag : t.tag = .aliasName)
    (named : t.data.alias? = some old) (nonempty : text ≠ "") (kind : KeyKind)
    (supply : Supply) :
    ∃ new, ((Gesture.edit (.setAlias text)).request kind t path supply).1.apply root = .ok new ∧
      ∀ base : Scope, new.dangling base = root.dangling base ∧
        ∀ q, Option.Rel (fun before after => ∀ key,
            ((after.findTable? key).isSome ↔ (before.findTable? key).isSome) ∧
            ((after.findColumn? key).isSome ↔ (before.findColumn? key).isSome))
          (root.scopeAt base q) (new.scopeAt base q) := by
  obtain ⟨nonemptyPath, ht⟩ := locate_eq_ok.1 located
  obtain ⟨new, hr⟩ := exists_replaceBelow ht
    (t.withData ((PayloadEdit.setAlias text).apply t.data))
  exact ⟨new, replaceAt_eq_ok.2 ⟨nonemptyPath, hr⟩, references_of_veiled_eq
    (mapData_replaceBelow _ root ht (mapData_setAlias tag named nonempty) hr)⟩

/-- The first of two CTEs under another name is still read by the second. -/
theorem recent_renamed :
    (∃ name, recentWeeks.locate [⟨"query"⟩, ⟨"ctes"⟩, ⟨"recent"⟩, ⟨"recent.alias"⟩] = .ok name ∧
      name.tag = .aliasName ∧ name.data.alias? = some "recent") ∧
    ∃ new, recentWeeks.replaceAt [⟨"query"⟩, ⟨"ctes"⟩, ⟨"recent"⟩, ⟨"recent.alias"⟩]
        { key := ⟨"recent.alias"⟩, tag := .aliasName, data := { aliasText := some "latest" } } =
          .ok new ∧
      new.dangling {} = recentWeeks.dangling {} ∧
      ∃ scope, new.scopeAt {} [⟨"query"⟩, ⟨"ctes"⟩, ⟨"weekly"⟩, ⟨"weeks"⟩] = some scope ∧
        (scope.findTable? ⟨"recent"⟩).isSome := by
  have located : recentWeeks.locate [⟨"query"⟩, ⟨"ctes"⟩, ⟨"recent"⟩, ⟨"recent.alias"⟩] =
      .ok { key := ⟨"recent.alias"⟩, tag := .aliasName, data := { aliasText := some "recent" } } :=
    rfl
  obtain ⟨new, edited, kept⟩ := setAlias_keeps_references located rfl
    (show _ = some "recent" from rfl) (show "latest" ≠ "" by decide) .sequential
    { random := id }
  obtain ⟨same, scopes⟩ := kept {}
  refine ⟨⟨_, located, rfl, rfl⟩, new, edited, same, ?_⟩
  obtain ⟨outer, found, seen⟩ : ∃ outer, recentWeeks.scopeAt {}
      [⟨"query"⟩, ⟨"ctes"⟩, ⟨"weekly"⟩, ⟨"weeks"⟩] = some outer ∧
        (outer.findTable? ⟨"recent"⟩).isSome := ⟨_, rfl, by decide⟩
  have related := scopes [⟨"query"⟩, ⟨"ctes"⟩, ⟨"weekly"⟩, ⟨"weeks"⟩]
  rw [found] at related
  cases after : new.scopeAt {} [⟨"query"⟩, ⟨"ctes"⟩, ⟨"weekly"⟩, ⟨"weeks"⟩] with
  | none =>
    rw [after] at related
    cases related
  | some scope =>
    rw [after] at related
    cases related with
    | some keys => exact ⟨scope, rfl, (keys ⟨"recent"⟩).1.2 seen⟩

end Node

end QueryTree
