import QueryTree.Proofs.Lineage
import QueryTree.Proofs.Replacement

/-! What scoping reads of a node from above. An alias shows its text, a column its
alias, columns and selects the names they expose, a CTE its table, and tables,
joins and from clauses the sources in them; every other node shows its key and
tag only. The face of a node is made of its own data and the faces of its
children, and the scopes of the children need no more than faces. -/

namespace QueryTree

/-- What a select reads of a table node. -/
structure SourceFace where
  picked : Option Key
  name : Option String

/-- The columns that a source offers. -/
def SourceFace.columns (source : SourceFace) (scope : Scope) : List Schema.Column :=
  match source.picked.bind scope.findTable? with
  | some table =>
    (table.columns.filter (·.name ≠ "")).map fun column =>
      match source.name with
      | some name => column.withQualifier name
      | none => column
  | none => []

structure Face where
  key : Key
  tag : Tag
  text : Option String := none
  columns : List Schema.Column := []
  table : Option Schema.Table := none
  sources : List SourceFace := []

namespace Node

def sourceFace (source : Node) : SourceFace where
  picked := source.data.picked?
  name := source.alias?

/-- The source in a from clause or a join. -/
def heldSources (holder : Node) : List SourceFace :=
  (holder.childOfTag .table).toList.map sourceFace

def face (n : Node) : Face :=
  let bare : Face := { key := n.key, tag := n.tag }
  match n.tag with
  | .aliasName => { bare with text := n.data.alias? }
  | .column => { bare with text := n.alias? }
  | .columns => { bare with columns := (n.childrenOfTag .column).filterMap namedColumn? }
  | .select => { bare with columns := n.exposedColumns }
  | .cte => { bare with table := n.cteTable? }
  | .table => { bare with sources := [n.sourceFace] }
  | .join => { bare with sources := n.heldSources }
  | .fromClause => { bare with sources := (n :: n.childrenOfTag .join).flatMap heldSources }
  | _ => bare

/-- The faces of the children, in order. -/
def faces (n : Node) : List Face := n.children.map face

@[simp] theorem tag_face (n : Node) : n.face.tag = n.tag := by
  unfold face
  cases tag : n.tag <;> rfl

/-- Queries and CTE lists show nothing of their children. -/
theorem face_of_hidden {n : Node} (h : n.tag = .query ∨ n.tag = .ctes) :
    n.face = { key := n.key, tag := n.tag } := by
  unfold face
  rcases h with tag | tag
  · rw [tag]
  · rw [tag]

/-! ## What is read through faces -/

theorem faces_find? (n : Node) (tag : Tag) :
    n.faces.find? (·.tag = tag) = (n.childOfTag tag).map face := by
  rw [faces, List.find?_map, childOfTag]
  simp only [Function.comp_def, tag_face]

theorem faces_filter (n : Node) (tag : Tag) :
    n.faces.filter (·.tag = tag) = (n.childrenOfTag tag).map face := by
  rw [faces, List.filter_map, childrenOfTag]
  simp only [Function.comp_def, tag_face]

theorem childOfTag_mem {n c : Node} {tag : Tag} (h : n.childOfTag tag = some c) :
    c ∈ n.children :=
  List.mem_of_find?_eq_some h

theorem tag_of_childOfTag {n c : Node} {tag : Tag} (h : n.childOfTag tag = some c) :
    c.tag = tag := by
  simpa using List.find?_some h

theorem childrenOfTag_subset (n : Node) (tag : Tag) : n.childrenOfTag tag ⊆ n.children :=
  fun _ h => (List.mem_filter.1 h).1

theorem tag_of_mem_childrenOfTag {n c : Node} {tag : Tag} (h : c ∈ n.childrenOfTag tag) :
    c.tag = tag := by
  simpa using (List.mem_filter.1 h).2

theorem tag_of_mem_sources {n source : Node} (h : source ∈ n.sources) : source.tag = .table := by
  unfold sources at h
  cases first : n.childOfTag .fromClause with
  | none => simp [first] at h
  | some clause =>
    rw [first] at h
    obtain ⟨holder, -, held⟩ := List.mem_filterMap.1 h
    exact tag_of_childOfTag held

/-- What the first child of a tag gives is read off its face. -/
theorem childOfTag_bind {β : Type} {tag : Tag} {f : Node → Option β} {g : Face → Option β}
    (h : ∀ c : Node, c.tag = tag → g c.face = f c) (n : Node) :
    (n.childOfTag tag).bind f = (n.faces.find? (·.tag = tag)).bind g := by
  rw [faces_find?]
  cases found : n.childOfTag tag with
  | none => rfl
  | some c => exact (h c (tag_of_childOfTag found)).symm

theorem childOfTag_map {β : Type} {tag : Tag} {f : Node → β} {g : Face → β}
    (h : ∀ c : Node, c.tag = tag → g c.face = f c) (n : Node) :
    (n.childOfTag tag).map f = (n.faces.find? (·.tag = tag)).map g := by
  rw [faces_find?]
  cases found : n.childOfTag tag with
  | none => rfl
  | some c => exact congrArg some (h c (tag_of_childOfTag found)).symm

theorem childrenOfTag_flatMap {β : Type} {tag : Tag} {f : Node → List β} {g : Face → List β}
    (h : ∀ c : Node, c.tag = tag → g c.face = f c) (n : Node) :
    (n.childrenOfTag tag).flatMap f = (n.faces.filter (·.tag = tag)).flatMap g := by
  rw [faces_filter, List.flatMap_map]
  exact List.flatMap_congr fun c hc => (h c (tag_of_mem_childrenOfTag hc)).symm

theorem childrenOfTag_filterMap {β : Type} {tag : Tag} {f : Node → Option β}
    {g : Face → Option β} (h : ∀ c : Node, c.tag = tag → g c.face = f c) (n : Node) :
    (n.childrenOfTag tag).filterMap f = (n.faces.filter (·.tag = tag)).filterMap g := by
  rw [faces_filter, List.filterMap_map]
  exact List.filterMap_congr fun c hc => (h c (tag_of_mem_childrenOfTag hc)).symm

theorem alias?_eq_faces (n : Node) :
    n.alias? = (n.faces.find? (·.tag = .aliasName)).bind (·.text) := by
  refine childOfTag_bind (fun c hc => ?_) n
  simp [face, hc]

theorem namedColumns_eq_faces (n : Node) :
    (n.childrenOfTag .column).filterMap namedColumn? =
      (n.faces.filter (·.tag = .column)).filterMap fun f =>
        f.text.map fun name => { key := f.key, name } := by
  refine childrenOfTag_filterMap (fun c hc => ?_) n
  simp [face, hc, namedColumn?]

theorem exposedColumns_eq_faces (n : Node) :
    n.exposedColumns = ((n.faces.find? (·.tag = .columns)).map (·.columns)).getD [] := by
  have shown : (n.childOfTag .columns).map
      (fun c => (c.childrenOfTag .column).filterMap namedColumn?) =
      (n.faces.find? (·.tag = .columns)).map (·.columns) :=
    childOfTag_map (fun c hc => by simp [face, hc]) n
  rw [← shown, exposedColumns]
  cases n.childOfTag .columns <;> rfl

theorem cteTable?_eq_faces (n : Node) :
    n.cteTable? = ((n.faces.find? (·.tag = .aliasName)).bind (·.text)).bind fun name =>
      (n.faces.find? (·.tag = .select)).map fun select =>
        { key := n.key, name, columns := select.columns.map (·.withQualifier name) } := by
  have shown (name : String) : (n.childOfTag .select).map (fun select =>
      ({ key := n.key, name, columns := select.exposedColumns.map (·.withQualifier name) } :
        Schema.Table)) = (n.faces.find? (·.tag = .select)).map fun select =>
        { key := n.key, name, columns := select.columns.map (·.withQualifier name) } :=
    childOfTag_map (fun c hc => by simp [face, hc]) n
  rw [cteTable?, ← alias?_eq_faces]
  cases n.alias? with
  | none => rfl
  | some name =>
    refine Eq.trans ?_ (shown name)
    cases n.childOfTag .select <;> rfl

theorem heldSources_eq_faces (n : Node) :
    n.heldSources = ((n.faces.find? (·.tag = .table)).map (·.sources)).getD [] := by
  have shown : (n.childOfTag .table).map (fun c => [c.sourceFace]) =
      (n.faces.find? (·.tag = .table)).map (·.sources) :=
    childOfTag_map (fun c hc => by simp [face, hc]) n
  rw [← shown, heldSources]
  cases n.childOfTag .table <;> rfl

theorem joinedSources_eq_faces (n : Node) :
    (n.childrenOfTag .join).flatMap heldSources =
      (n.faces.filter (·.tag = .join)).flatMap (·.sources) :=
  childrenOfTag_flatMap (fun c hc => by simp [face, hc]) n

theorem offered_eq_faces (scope : Scope) (n : Node) :
    n.offered scope = ⟨(((n.faces.find? (·.tag = .fromClause)).map (·.sources)).getD []).flatMap
      (·.columns scope)⟩ := by
  have held (holder : Node) : (holder.childOfTag .table).toList.flatMap (sourceColumns scope) =
      holder.heldSources.flatMap (·.columns scope) := by
    rw [heldSources, List.flatMap_map]
    rfl
  have shown : (n.childOfTag .fromClause).map
      (fun c => (c :: c.childrenOfTag .join).flatMap heldSources) =
      (n.faces.find? (·.tag = .fromClause)).map (·.sources) :=
    childOfTag_map (fun c hc => by simp [face, hc]) n
  rw [← shown, offered, sources]
  cases n.childOfTag .fromClause with
  | none => rfl
  | some clause =>
    simp [List.filterMap_eq_flatMap_toList, List.flatMap_assoc, held]

/-- The tables of some nodes are those on their faces. -/
theorem cteTables_eq_faces (nodes : List Node) :
    cteTables nodes = (nodes.map face).filterMap (·.table) := by
  induction nodes with
  | nil => rfl
  | cons n nodes ih =>
    have shown : n.face.table = if n.tag = .cte then n.cteTable? else none := by
      unfold face
      cases tag : n.tag <;> rfl
    rw [List.map_cons, List.filterMap_cons, ← ih, shown, cteTables, List.filter_cons]
    by_cases tag : n.tag = .cte
    · simp [tag, List.filterMap_cons, cteTables]
    · simp [tag, cteTables]

/-! ## Faces from faces -/

/-- A node rebuilt around children with the same faces has the same face. -/
theorem face_congr {a b : Node} (key : b.key = a.key) (tag : b.tag = a.tag)
    (data : b.data = a.data) (faces : b.faces = a.faces) : b.face = a.face := by
  have name : b.alias? = a.alias? := by rw [alias?_eq_faces, alias?_eq_faces a, faces]
  have held : b.heldSources = a.heldSources := by
    rw [heldSources_eq_faces, heldSources_eq_faces a, faces]
  unfold face
  rw [tag, key, data, name, namedColumns_eq_faces b, namedColumns_eq_faces a,
    exposedColumns_eq_faces b, exposedColumns_eq_faces a, cteTable?_eq_faces b,
    cteTable?_eq_faces a, faces, key, List.flatMap_cons, List.flatMap_cons,
    joinedSources_eq_faces b, joinedSources_eq_faces a, held, faces]
  unfold sourceFace
  rw [data, name]

end Node

end QueryTree
