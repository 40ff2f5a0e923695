import QueryTree.Wire.Catalog
import QueryTree.Wire.Schema
import Mathlib.Data.List.Nodup

/-! Reading back what is written. Each wire form leaves out what its reader fills in
again and nothing else, so a reader that may enter enough arrays and objects gets
the value that was written, and draws no key on the way. -/

namespace QueryTree

/-- The members of an object. -/
def Json.members : Json → List (String × Json)
  | object members => members
  | _ => []

theorem Json.bool_ne_null (flag : Bool) : Json.bool flag ≠ .null := by simp

theorem Json.string_ne_null (text : String) : Json.string text ≠ .null := by simp

theorem Json.array_ne_null (items : List Json) : Json.array items ≠ .null := by simp

namespace Wire

/-! ## Parts of records -/

/-- The form of `x` is read as `x` wherever it is not too deep. -/
def ReadsBackAt {m : Type → Type} [Monad m] {α : Type} (encode : α → Json)
    (decode : Nat → Json → m α) (x : α) : Prop :=
  ∀ levels, (encode x).depth ≤ levels → decode levels (encode x) = pure x

/-- Every form is read as the value that it was written from. -/
def ReadsBack {m : Type → Type} [Monad m] {α : Type} (encode : α → Json)
    (decode : Nat → Json → m α) : Prop :=
  ∀ x, ReadsBackAt encode decode x

section

variable {m : Type → Type} [Monad m] [LawfulMonad m] {α : Type} {encode : α → Json}

theorem mapM_encode {read : Json → m α} {xs : List α}
    (h : ∀ x ∈ xs, read (encode x) = pure x) : (xs.map encode).mapM read = pure xs := by
  induction xs with
  | nil => rfl
  | cons x xs ih =>
    obtain ⟨first, others⟩ := List.forall_mem_cons.1 h
    rw [List.map_cons, List.mapM_cons, first, pure_bind, ih others, pure_bind]

/-- An array leaves one level less to its items. -/
theorem exists_mapM {decode : Nat → Json → m α} {xs : List α} {levels : Nat}
    (h : ∀ x ∈ xs, ReadsBackAt encode decode x)
    (deep : (Json.array (xs.map encode)).depth ≤ levels) :
    ∃ l, levels = l + 1 ∧ (xs.map encode).mapM (decode l) = pure xs := by
  rw [Json.depth] at deep
  obtain ⟨l, rfl⟩ : ∃ l, levels = l + 1 := Nat.exists_eq_succ_of_ne_zero (by omega)
  refine ⟨l, rfl, mapM_encode fun x hx => h x hx l ?_⟩
  have inner : (encode x).depth ≤ Json.depthOfItems (xs.map encode) :=
    Json.depth_le_depthOfItems (List.mem_map_of_mem hx)
  omega

end

theorem readsBackAt_list {α : Type} {encode : α → Json} {decode : Decoder α} {xs : List α}
    (h : ∀ x ∈ xs, ReadsBackAt encode decode x) :
    ReadsBackAt (fun xs : List α => .array (xs.map encode)) (Wire.list decode) xs := by
  intro levels deep
  obtain ⟨levels, rfl, items⟩ := exists_mapM h deep
  exact items

theorem ReadsBack.list {α : Type} {encode : α → Json} {decode : Decoder α}
    (h : ReadsBack encode decode) :
    ReadsBack (fun xs : List α => .array (xs.map encode)) (Wire.list decode) :=
  fun _ => readsBackAt_list fun x _ => h x

theorem ReadsBack.drawnList {α : Type} {encode : α → Json} {decode : Nat → Json → Drawing α}
    (h : ReadsBack encode decode) :
    ReadsBack (fun xs : List α => .array (xs.map encode)) (Drawing.list decode) := by
  intro xs levels deep
  obtain ⟨levels, rfl, items⟩ := exists_mapM (fun x _ => h x) deep
  exact items

/-- The members are accepted if they come in the order of the names. -/
theorem members?_object {names : List String} {members : Members} (nodup : names.Nodup)
    (order : (members.map Prod.fst).Sublist names) :
    members? names (.object members) = some members := by
  have once : ∀ name, members.countP (·.1 = name) ≤ 1 := by
    intro name
    have counted : (members.map Prod.fst).count name ≤ 1 :=
      List.nodup_iff_count_le_one.1 (nodup.sublist order) name
    rw [List.count_eq_countP, List.countP_map] at counted
    exact counted
  rw [members?, if_pos (by simp [once])]

theorem members?_eq_some {names : List String} {members accepted : Members}
    (h : members? names (.object members) = some accepted) : accepted = members := by
  rw [members?] at h
  split at h
  · exact (Option.some.inj h).symm
  · cases h

/-- Every member may be read with this many levels. -/
def Fits (levels : Nat) (members : Members) : Prop :=
  ∀ name json, members.lookup name = some json → json.depth ≤ levels

/-- A record opens one level and leaves the others to its members. -/
theorem exists_members {json : Json} {levels : Nat} (names : List String)
    (object : json = .object json.members) (nodup : names.Nodup)
    (order : (json.members.map Prod.fst).Sublist names) (deep : json.depth ≤ levels) :
    ∃ l, levels = l + 1 ∧ members? names json = some json.members ∧ Fits l json.members := by
  rw [object, Json.depth] at deep
  obtain ⟨l, rfl⟩ : ∃ l, levels = l + 1 := Nat.exists_eq_succ_of_ne_zero (by omega)
  refine ⟨l, rfl, by rw [object]; exact members?_object nodup order, fun name inner h => ?_⟩
  obtain ⟨before, after, split, -⟩ := List.lookup_eq_some_iff.1 h
  have written : (name, inner) ∈ json.members := by simp [split]
  have below : inner.depth ≤ Json.depthOfMembers json.members :=
    Json.depth_le_depthOfMembers written
  omega

theorem names_member? (name : String) (json : Option Json) :
    ((member? name json).map Prod.fst).Sublist [name] := by
  cases json <;> simp [member?]

@[simp] theorem lookup_member? (name other : String) (json : Option Json) :
    (member? name json).lookup other = if other = name then json else none := by
  cases json with
  | none => simp [member?]
  | some json =>
    by_cases h : other = name
    · simp [member?, h]
    · simp [member?, List.lookup_cons, h, beq_false_of_ne h]

theorem nullable_of_ne_null {α : Type} (read : Json → Option α) {json : Json}
    (h : json ≠ .null) : nullable read json = (read json).map some := by
  rw [nullable]
  exact h

section

variable {α : Type} {encode : α → Json} {decode : Decoder α} {levels : Nat} {members : Members}

theorem ReadsBackAt.required {x : α} (h : ReadsBackAt encode decode x) (fits : Fits levels members)
    (name : String) (found : members.lookup name = some (encode x)) :
    required (decode levels) members name = some x := by
  rw [Wire.required, found, Option.bind_some]
  exact h levels (fits name _ found)

/-- Where a member is there, it does not matter what would be done without it. -/
theorem ReadsBackAt.optional {m : Type → Type} [Monad m] {decode : Nat → Json → m α} {x : α}
    (h : ReadsBackAt encode decode x) (fits : Fits levels members) (name : String)
    (found : members.lookup name = some (encode x)) (missing : m α) :
    optional missing (decode levels) members name = pure x := by
  rw [Wire.optional, found]
  exact h levels (fits name _ found)

/-- A member that is left out when there is no value is read as no value. -/
theorem optional_nullable {value : Option α} (h : ∀ x ∈ value, ReadsBackAt encode decode x)
    (written : ∀ x, encode x ≠ .null) (fits : Fits levels members) (name : String)
    (found : members.lookup name = value.map encode) :
    optional (some none) (nullable (decode levels)) members name = some value := by
  rw [Wire.optional, found]
  cases value with
  | none => rfl
  | some x =>
    have read : decode levels (encode x) = some x := h x rfl levels (fits name _ found)
    exact (nullable_of_ne_null _ (written x)).trans (by rw [read]; rfl)

theorem ReadsBack.nullable {value : Option α} (h : ReadsBack encode decode)
    (written : ∀ x, encode x ≠ .null) (fits : Fits levels members) (name : String)
    (found : members.lookup name = value.map encode) :
    Wire.optional (some none) (Wire.nullable (decode levels)) members name = some value :=
  optional_nullable (fun x _ => h x) written fits name found

end

theorem find?_name {α : Type} {options : List α} {name : α → String} {x : α} (hx : x ∈ options)
    (nodup : (options.map name).Nodup) : options.find? (name · = name x) = some x := by
  obtain ⟨before, after, rfl⟩ := List.append_of_mem hx
  refine List.find?_eq_some_iff_append.2 ⟨by simp, before, after, rfl, fun y hy => ?_⟩
  rw [List.map_append, List.map_cons, List.nodup_middle, List.nodup_cons] at nodup
  have other : name y ≠ name x := fun same =>
    nodup.1 (List.mem_append_left _ (same ▸ List.mem_map_of_mem hy))
  simpa using other

/-- Choices are read off their names. -/
theorem readsBack_choice {α : Type} {options : List α} {name : α → String}
    (complete : ∀ x, x ∈ options) (nodup : (options.map name).Nodup) :
    ReadsBack (fun x => .string (name x)) (choice options name) := by
  intro x levels _
  cases levels with
  | zero => exact find?_name (complete x) nodup
  | succ levels => exact find?_name (complete x) nodup

end Wire

open Wire

/-! ## Choices -/

theorem Tag.readsBack : ReadsBack Tag.toJson Tag.decode := readsBack_choice mem_all (by decide)

theorem JoinKind.readsBack : ReadsBack JoinKind.toJson JoinKind.decode :=
  readsBack_choice (by intro kind; cases kind <;> decide) (by decide)

theorem Operation.readsBack : ReadsBack Operation.toJson Operation.decode :=
  readsBack_choice (by intro operation; cases operation; decide) (by decide)

theorem Wire.readsBack_text : ReadsBack Json.string (fun _ => Wire.text) := fun _ _ _ => rfl

theorem Wire.readsBack_flag : ReadsBack Json.bool (fun _ => Wire.flag) := fun _ _ _ => rfl

theorem Key.readsBack : ReadsBack Key.toJson (fun _ => Wire.key) := fun _ _ _ => rfl

/-! ## Nodes and requests -/

namespace Payload

theorem names_toJson (data : Payload) : (data.toJson.members.map Prod.fst).Sublist memberNames := by
  simp only [toJson, Json.members, List.map_append]
  exact (((((names_member? _ _).append (names_member? _ _)).append (names_member? _ _)).append
    (names_member? _ _)).append (names_member? _ _)).append (names_member? _ _)

theorem readsBack : ReadsBack toJson decode := by
  intro data levels deep
  obtain ⟨levels, rfl, accepted, fits⟩ :=
    exists_members memberNames rfl (by decide) data.names_toJson deep
  obtain ⟨aliasFound, rawFound, sqlFound, selectedFound, kindFound, namesFound⟩ :
      data.toJson.members.lookup "alias" = data.aliasText.map .string ∧
      data.toJson.members.lookup "isRaw" = (if data.isRaw then some (.bool true) else none) ∧
      data.toJson.members.lookup "rawSql" = data.rawSql.map .string ∧
      data.toJson.members.lookup "selectedValue" = data.selected.map Key.toJson ∧
      data.toJson.members.lookup "type" = data.joinKind.map JoinKind.toJson ∧
      data.toJson.members.lookup "columns" =
        data.columnNames.map fun names => .array (names.map .string) := by
    simp [toJson, Json.members, List.lookup_append]
  have isRaw : Wire.optional (some false) Wire.flag data.toJson.members "isRaw" =
      some data.isRaw := by
    rw [Wire.optional, rawFound]
    cases data.isRaw <;> rfl
  have aliasText := readsBack_text.nullable Json.string_ne_null fits _ aliasFound
  have rawSql := readsBack_text.nullable Json.string_ne_null fits _ sqlFound
  have selected := Key.readsBack.nullable (fun k => Json.string_ne_null k.text) fits _
    selectedFound
  have joinKind := JoinKind.readsBack.nullable (fun k => Json.string_ne_null k.text) fits _
    kindFound
  have columnNames := readsBack_text.list.nullable (fun _ => Json.array_ne_null _) fits _
    namesFound
  rw [decode, accepted]
  simp only [Option.bind_eq_bind, Option.bind_some, aliasText, isRaw, rawSql, selected, joinKind,
    columnNames]

end Payload

namespace Node

/-- The members of a node; there are four if it has a list of children. -/
theorem toJson_eq (n : Node) : n.toJson = .object (
    [("key", n.key.toJson), ("type", n.tag.toJson), ("data", n.data.toJson)]
    ++ member? "children" (n.kids.map fun kids => .array (kids.map toJson))) := by
  obtain ⟨key, tag, data, _ | kids⟩ := n
  · rfl
  · rw [toJson, toJsonAll_eq_map]
    rfl

theorem toJson_eq_object (n : Node) : n.toJson = .object n.toJson.members := by
  rw [toJson_eq, Json.members]

theorem names_toJson (n : Node) : (n.toJson.members.map Prod.fst).Sublist memberNames := by
  rw [toJson_eq, Json.members, List.map_append]
  exact (List.Sublist.refl _).append (names_member? _ _)

theorem lookup_toJson (n : Node) :
    n.toJson.members.lookup "key" = some n.key.toJson ∧
    n.toJson.members.lookup "type" = some n.tag.toJson ∧
    n.toJson.members.lookup "data" = some n.data.toJson ∧
    n.toJson.members.lookup "children" = n.kids.map fun kids => .array (kids.map toJson) := by
  rw [toJson_eq]
  simp [Json.members, List.lookup_cons]

theorem decodeAll_eq_list : decodeAll = Wire.list decode := by
  funext levels json
  cases levels <;> cases json <;> simp [decodeAll, Wire.list]

theorem readsBack : ReadsBack toJson decode := by
  intro n
  induction n using children_induction with
  | step n ih =>
    intro levels deep
    obtain ⟨levels, rfl, accepted, fits⟩ :=
      exists_members memberNames n.toJson_eq_object (by decide) n.names_toJson deep
    obtain ⟨keyFound, tagFound, dataFound, kidsFound⟩ := n.lookup_toJson
    have smaller : ∀ kids ∈ n.kids, ∀ c ∈ kids, ReadsBackAt toJson decode c := fun kids h c hc =>
      ih c (by simpa [children, Option.mem_def.1 h] using hc)
    have key := (Key.readsBack n.key).required fits _ keyFound
    have tag := (Tag.readsBack n.tag).required fits _ tagFound
    have data := (Payload.readsBack n.data).optional fits _ dataFound (some {})
    have kids := optional_nullable (fun kids h => readsBackAt_list (smaller kids h))
      (fun _ => Json.array_ne_null _) fits _ kidsFound
    rw [decode, accepted]
    simp only [Option.bind_eq_bind, Option.bind_some, Option.pure_def, key, tag, data,
      decodeAll_eq_list, kids]
    cases n
    rfl

end Node

namespace Request

theorem readsBack : ReadsBack toJson decode := by
  intro request levels deep
  obtain ⟨levels, rfl, accepted, fits⟩ :=
    exists_members memberNames rfl (by decide) (List.Sublist.refl _) deep
  have operation := (Operation.readsBack request.operation).required fits "op" rfl
  have path := (Key.readsBack.list request.path).required fits "path" rfl
  have replacement := (Node.readsBack request.replacement).required fits "replacement" rfl
  rw [decode, accepted]
  simp only [Option.bind_eq_bind, Option.bind_some, operation, path, replacement]

end Request

/-! ## Schemas and offers -/

namespace Schema

namespace Column

theorem names_toJson (column : Column) :
    (column.toJson.members.map Prod.fst).Sublist memberNames := by
  simp only [toJson, Json.members, List.map_append]
  exact (((List.Sublist.refl _).append (names_member? _ _)).append (List.Sublist.refl _)).append
    (names_member? _ _)

theorem readsBack : ReadsBack toJson decode := by
  intro column levels deep
  obtain ⟨levels, rfl, accepted, fits⟩ :=
    exists_members memberNames rfl (by decide) column.names_toJson deep
  obtain ⟨qualifierFound, nameFound, primaryFound⟩ :
      column.toJson.members.lookup "from" = column.qualifier.map .string ∧
      column.toJson.members.lookup "name" = some (.string column.name) ∧
      column.toJson.members.lookup "isPk" = column.isPrimaryKey.map .bool := by
    simp [toJson, Json.members, List.lookup_append, List.lookup_cons]
  have key := (Key.readsBack column.key).required fits "key" rfl
  have qualifier := readsBack_text.nullable Json.string_ne_null fits _ qualifierFound
  have name := (readsBack_text column.name).required fits _ nameFound
  have isPrimaryKey := readsBack_flag.nullable Json.bool_ne_null fits _ primaryFound
  rw [decode, accepted]
  simp only [Option.bind_eq_bind, Option.bind_some, key, qualifier, name, isPrimaryKey]

end Column

theorem Table.readsBack : ReadsBack Table.toJson Table.decode := by
  intro table levels deep
  obtain ⟨levels, rfl, accepted, fits⟩ :=
    exists_members Table.memberNames rfl (by decide) (List.Sublist.refl _) deep
  have key := (Key.readsBack table.key).required fits "key" rfl
  have name := (readsBack_text table.name).required fits "name" rfl
  have columns := (Column.readsBack.list table.columns).required fits "columns" rfl
  rw [Table.decode, accepted]
  simp only [Option.bind_eq_bind, Option.bind_some, key, name, columns]

theorem readsBack : ReadsBack toJson decode := by
  intro schema levels deep
  obtain ⟨levels, rfl, accepted, fits⟩ :=
    exists_members ["from"] rfl (by decide) (List.Sublist.refl _) deep
  have tables := (Table.readsBack.list schema.tables).required fits "from" rfl
  rw [decode, accepted]
  simp only [Option.bind_eq_bind, Option.bind_some, tables]

end Schema

theorem Offer.readsBack : ReadsBack Offer.toJson Offer.decode := by
  intro offer levels deep
  obtain ⟨levels, rfl, accepted, fits⟩ :=
    exists_members ["columns"] rfl (by decide) (List.Sublist.refl _) deep
  have columns := (Schema.Column.readsBack.list offer.columns).required fits "columns" rfl
  rw [Offer.decode, accepted]
  simp only [Option.bind_eq_bind, Option.bind_some, columns]

/-! ## Catalogs -/

@[simp] theorem Drawing.ofRead_some {α : Type} (x : α) : Drawing.ofRead (some x) = pure x := rfl

namespace Catalog

theorem ColumnType.readsBack : ReadsBack ColumnType.toJson ColumnType.decode :=
  readsBack_choice (by intro type; cases type <;> decide) (by decide)

/-- An id that is there is taken as it is. -/
theorem decodeId_of_lookup {members : Wire.Members} {id : Key}
    (found : members.lookup "id" = some id.toJson) : decodeId members = pure id := by
  rw [decodeId, Wire.optional, found]
  rfl

theorem Column.readsBack : ReadsBack Column.toJson Column.decode := by
  intro column levels deep
  obtain ⟨levels, rfl, accepted, fits⟩ :=
    exists_members Column.memberNames rfl (by decide) (List.Sublist.refl _) deep
  have id : decodeId column.toJson.members = pure column.id := decodeId_of_lookup rfl
  have name := (readsBack_text column.name).required fits "name" rfl
  have type := (ColumnType.readsBack column.type).optional fits "type" rfl (some default)
  have isPrimaryKey := (readsBack_flag column.isPrimaryKey).optional fits "is_pk" rfl (some false)
  rw [Column.decode, accepted]
  simp only [Drawing.ofRead_some, pure_bind, id, name, type, isPrimaryKey, Option.pure_def]

theorem Table.readsBack : ReadsBack Table.toJson Table.decode := by
  intro table levels deep
  obtain ⟨levels, rfl, accepted, fits⟩ :=
    exists_members Table.memberNames rfl (by decide) (List.Sublist.refl _) deep
  have id : decodeId table.toJson.members = pure table.id := decodeId_of_lookup rfl
  have name := (readsBack_text table.name).required fits "name" rfl
  have columns := (Column.readsBack.drawnList table.columns).optional fits "columns" rfl (pure [])
  rw [Table.decode, accepted]
  simp only [Drawing.ofRead_some, pure_bind, id, name, columns]

theorem readsBack : ReadsBack toJson decode := by
  intro catalog levels deep
  obtain ⟨levels, rfl, accepted, fits⟩ :=
    exists_members memberNames rfl (by decide) (List.Sublist.refl _) deep
  have name := (readsBack_text catalog.name).required fits "name" rfl
  have tables := (Table.readsBack.drawnList catalog.tables).optional fits "tables" rfl (pure [])
  rw [decode, accepted]
  simp only [Drawing.ofRead_some, pure_bind, name, tables]

end Catalog

/-! ## Every form -/

namespace Wire

/-- Nothing is lost between writing and reading. -/
structure Lossless {α : Type} (encode : α → Json) (read : Json → Drawing α) : Prop where
  /-- What was written is read again, and no key is drawn for it. -/
  undo : ∀ x supply, (read (encode x)).run supply = some (x, supply)
  injective : Function.Injective encode
  /-- Whatever is read stays the same when it is written and read again, even if the
  value that it came from had to be completed. -/
  again : ∀ json supply x rest, (read json).run supply = some (x, rest) →
    ∀ supply', (read (encode x)).run supply' = some (x, supply')

section

variable {α : Type} {encode : α → Json}

theorem Lossless.of_undo {read : Json → Drawing α}
    (undo : ∀ x supply, (read (encode x)).run supply = some (x, supply)) :
    Lossless encode read where
  undo := undo
  injective a b same := by
    have left := undo a ⟨0, 0, id⟩
    have right := undo b ⟨0, 0, id⟩
    rw [same, right] at left
    cases left
    rfl
  again _ _ x _ _ supply := undo x supply

theorem ReadsBack.lossless {decode : Decoder α} (h : ReadsBack encode decode) :
    Lossless encode (.ofRead ∘ ofJson? decode) :=
  .of_undo fun x supply => by
    rw [Function.comp_apply, ofJson?, h x _ (Nat.le_refl _)]
    rfl

theorem ReadsBack.lossless_drawing {decode : Nat → Json → Drawing α} (h : ReadsBack encode decode) :
    Lossless encode (fun json => decode json.depth json) :=
  .of_undo fun x supply => by
    rw [h x _ (Nat.le_refl _)]
    rfl

end

end Wire

/-- Every wire form is read as what was written, however deep the value is. Of all types
only those of catalogs may draw keys for what is missing, and in a form that was
written nothing is. -/
theorem wire_forms_lossless :
    Lossless Node.toJson (.ofRead ∘ ofJson? Node.decode) ∧
    Lossless Payload.toJson (.ofRead ∘ ofJson? Payload.decode) ∧
    Lossless Request.toJson (.ofRead ∘ ofJson? Request.decode) ∧
    Lossless Schema.Column.toJson (.ofRead ∘ ofJson? Schema.Column.decode) ∧
    Lossless Schema.Table.toJson (.ofRead ∘ ofJson? Schema.Table.decode) ∧
    Lossless Schema.toJson (.ofRead ∘ ofJson? Schema.decode) ∧
    Lossless Offer.toJson (.ofRead ∘ ofJson? Offer.decode) ∧
    Lossless Catalog.toJson (fun json => Catalog.decode json.depth json) ∧
    Lossless Catalog.Table.toJson (fun json => Catalog.Table.decode json.depth json) ∧
    Lossless Catalog.Column.toJson (fun json => Catalog.Column.decode json.depth json) :=
  ⟨Node.readsBack.lossless, Payload.readsBack.lossless, Request.readsBack.lossless,
    Schema.Column.readsBack.lossless, Schema.Table.readsBack.lossless,
    Schema.readsBack.lossless, Offer.readsBack.lossless, Catalog.readsBack.lossless_drawing,
    Catalog.Table.readsBack.lossless_drawing, Catalog.Column.readsBack.lossless_drawing⟩

end QueryTree
