import QueryTree.Gesture
import QueryTree.Proofs.Likeness
import QueryTree.Proofs.Validity

/-! What name resolution does not read of payloads. Of all that nodes carry it reads
the texts of aliases and the picks of tables, and whether a list of children is
absent or empty is all one to it. So trees that agree in these have the same scopes,
and an edit of anything else shows in the report of dangling picks only where the
report speaks of the edited node. -/

namespace QueryTree

/-- A payload that name resolution cannot tell from that of the node. -/
structure Node.ReadsAlike (n : Node) (data : Payload) : Prop where
  name : n.tag = .aliasName → data.alias? = n.data.alias?
  pick : n.tag = .table → data.picked? = n.data.picked?

/-- The edit writes nothing that name resolution reads of nodes with the tag. -/
def PayloadEdit.HiddenAt (tag : Tag) : PayloadEdit → Prop
  | setAlias _ => tag ≠ .aliasName
  | select _ => tag ≠ .table
  | toggleRaw | setRawSql _ | setJoinKind _ => True

namespace Node

theorem ReadsAlike.refl (n : Node) : n.ReadsAlike n.data := ⟨fun _ => rfl, fun _ => rfl⟩

theorem keepsNames_readsAlike : KeepsNames ReadsAlike := fun _ _ h => h.name

theorem keepsPicks_readsAlike : KeepsPicks ReadsAlike := fun _ _ h => h.pick

theorem readsAlike_apply {n : Node} {edit : PayloadEdit} (hidden : edit.HiddenAt n.tag) :
    n.ReadsAlike (edit.apply n.data) := by
  cases edit with
  | setAlias text => exact ⟨fun tag => absurd tag hidden, fun _ => rfl⟩
  | select key => exact ⟨fun _ => rfl, fun tag => absurd tag hidden⟩
  | toggleRaw => exact ⟨fun _ => rfl, fun _ => rfl⟩
  | setRawSql sql => exact ⟨fun _ => rfl, fun _ => rfl⟩
  | setJoinKind kind => exact ⟨fun _ => rfl, fun _ => rfl⟩

/-- Name resolution gives both trees the same scopes: one by one in pre-order, filed by
key, and along every path. -/
structure SameScopes (a b : Node) : Prop where
  inOrder : ∀ base, (b.scopedPreorder base).map Prod.snd = (a.scopedPreorder base).map Prod.snd
  byKey : ∀ base, b.scopes base = a.scopes base
  atPath : ∀ base path, b.scopeAt base path = a.scopeAt base path

theorem Alike.sameScopes {a b : Node} (h : Alike ReadsAlike a b) : SameScopes a b where
  inOrder base := by
    have entries := h.scopedPreorder_of_keeps keepsNames_readsAlike keepsPicks_readsAlike base
    exact map_eq_map_iff_forall₂.2 (entries.imp fun _ _ pair => pair.2.symm)
  byKey := h.scopes_eq keepsNames_readsAlike keepsPicks_readsAlike
  atPath := h.scopeAt_eq keepsNames_readsAlike keepsPicks_readsAlike

/-! ## What the report says of each node -/

/-- The entries that one node contributes to the report on a tree; there is one at most. -/
def reportOn (root : Node) (base : Scope) (n : Node) : List Dangling :=
  (((root.scopes base).get? n.key).bind n.danglingPick?).toList

theorem dangling_eq_flatMap (root : Node) (base : Scope) :
    root.dangling base = root.preorder.flatMap (root.reportOn base) := by
  rw [dangling, List.filterMap_eq_flatMap_toList]
  rfl

/-- Nodes with the same content contribute the same. -/
theorem flatMap_reportOn_congr {root : Node} {base : Scope} {ns ns' : List Node}
    (same : ns'.map content = ns.map content) :
    ns'.flatMap (root.reportOn base) = ns.flatMap (root.reportOn base) := by
  refine flatMap_eq_of_forall₂ (map_eq_map_iff_forall₂.1 same) fun n n' h => ?_
  obtain ⟨key, tag, data⟩ : n'.key = n.key ∧ n'.tag = n.tag ∧ n'.data = n.data := by
    simpa [content] using h
  have judged : n'.danglingPick? = n.danglingPick? := funext (danglingPick?_congr key tag data)
  rw [reportOn, reportOn, judged, key]

/-- Trees that agree in the texts of aliases and the picks of tables have the same
scopes. An edit of anything else changes no scope, and the report is the same but for
what the edited node contributes. -/
theorem resolution_ignores_hidden_payloads :
    (∀ a b : Node, Alike ReadsAlike a b → SameScopes a b) ∧
    ∀ (root t : Node) (path : List Key), root.locate path = .ok t →
      ∀ edit : PayloadEdit, edit.HiddenAt t.tag → ∀ kind supply,
        ∃ new, ((Gesture.edit edit).request kind t path supply).1.apply root = .ok new ∧
          SameScopes root new ∧
          ∃ before after, root.preorder = before ++ t :: after ∧ ∀ base,
            root.dangling base = before.flatMap (root.reportOn base) ++
              root.reportOn base t ++ after.flatMap (root.reportOn base) ∧
            new.dangling base = before.flatMap (root.reportOn base) ++
              root.reportOn base (t.withData (edit.apply t.data)) ++
              after.flatMap (root.reportOn base) := by
  refine ⟨fun a b h => h.sameScopes, fun root t path located edit hidden kind supply => ?_⟩
  obtain ⟨nonempty, ht⟩ := locate_eq_ok.1 located
  obtain ⟨new, hr⟩ := exists_replaceBelow ht (t.withData (edit.apply t.data))
  have alike : Alike ReadsAlike root new :=
    .of_replaceBelow ReadsAlike.refl ht (readsAlike_apply hidden) hr
  obtain ⟨before, after, old, cut⟩ := content_local.cut ht
  obtain ⟨-, before', spliced, same⟩ := cut _ new trivial hr
  refine ⟨new, replaceAt_eq_ok.2 ⟨nonempty, hr⟩, alike.sameScopes, before,
    t.children.flatMap preorder ++ after, ?_, fun base => ?_⟩
  · rw [old, preorder_eq t]
    simp
  · -- The scopes are the same, so every node is judged in the new tree as it was in the old.
    have judged : new.reportOn base = root.reportOn base := by
      unfold reportOn
      rw [alike.sameScopes.byKey]
    rw [dangling_eq_flatMap, dangling_eq_flatMap, judged, old, spliced, preorder_eq t,
      preorder_eq (t.withData _), children_withData]
    simp only [List.flatMap_append, List.flatMap_cons, flatMap_reportOn_congr same,
      List.append_assoc, and_self]

def dayVar : Node := { key := ⟨"var"⟩, tag := .var, data := { selected := some ⟨"day"⟩ } }

/-- A select with one column, over a table that is not there. -/
def dayRead (var : Node) (conditions : Option (List Node)) : Node :=
  { key := ⟨"select"⟩, tag := .select, kids := some [
      { key := ⟨"columns"⟩, tag := .columns, kids := some [
        { key := ⟨"column"⟩, tag := .column, kids := some [var] }] },
      { key := ⟨"from"⟩, tag := .fromClause, kids := some [
        { key := ⟨"table"⟩, tag := .table, data := { selected := some ⟨"recent"⟩ } }] },
      { key := ⟨"where"⟩, tag := .whereClause, kids := conditions }] }

theorem dayRead_alike {var var' : Node} (h : Alike ReadsAlike var var') :
    Alike ReadsAlike (dayRead var none) (dayRead var' (some [])) := by
  have columns : Alike ReadsAlike
      { key := ⟨"columns"⟩, tag := .columns, kids := some [
        { key := ⟨"column"⟩, tag := .column, kids := some [var] }] }
      { key := ⟨"columns"⟩, tag := .columns, kids := some [
        { key := ⟨"column"⟩, tag := .column, kids := some [var'] }] } :=
    .mk rfl rfl (.refl _) (.cons (.mk rfl rfl (.refl _) (.cons h .nil)) .nil)
  have conditions : Alike ReadsAlike { key := ⟨"where"⟩, tag := .whereClause }
      { key := ⟨"where"⟩, tag := .whereClause, kids := some [] } :=
    .mk rfl rfl (.refl _) .nil
  refine .mk rfl rfl (.refl _) (.cons columns (.cons (.refl_of ReadsAlike.refl _) ?_))
  exact .cons conditions .nil

/-- The variable turns raw: no scope changes, its own entry goes and no other does. -/
theorem dayRead_turns_raw :
    Alike ReadsAlike (dayRead dayVar none)
      (dayRead (dayVar.withData { isRaw := true, rawSql := some "1" }) (some [])) ∧
    SameScopes (dayRead dayVar none)
      (dayRead (dayVar.withData { isRaw := true, rawSql := some "1" }) (some [])) ∧
    PayloadEdit.toggleRaw.HiddenAt dayVar.tag ∧
    ∃ new, (dayRead dayVar none).replaceAt [⟨"select"⟩, ⟨"columns"⟩, ⟨"column"⟩, ⟨"var"⟩]
        (dayVar.withData (PayloadEdit.toggleRaw.apply dayVar.data)) = .ok new ∧
      SameScopes (dayRead dayVar none) new ∧
      ∃ before after, (dayRead dayVar none).dangling {} =
          before ++ [.column ⟨"var"⟩ ⟨"day"⟩] ++ after ∧
        new.dangling {} = before ++ after := by
  obtain ⟨alike, edited⟩ := resolution_ignores_hidden_payloads
  have raw : Alike ReadsAlike dayVar (dayVar.withData { isRaw := true, rawSql := some "1" }) :=
    .mk rfl rfl ⟨nofun, nofun⟩ .nil
  have located : (dayRead dayVar none).locate
      [⟨"select"⟩, ⟨"columns"⟩, ⟨"column"⟩, ⟨"var"⟩] = .ok dayVar := rfl
  obtain ⟨new, done, same, before, after, -, reports⟩ :=
    edited _ _ _ located .toggleRaw trivial .sequential { random := id }
  obtain ⟨old, now⟩ := reports {}
  have resolved : (dayRead dayVar none).reportOn {}
      (dayVar.withData (PayloadEdit.toggleRaw.apply dayVar.data)) = [] := rfl
  rw [resolved, List.append_nil] at now
  exact ⟨dayRead_alike raw, alike _ _ (dayRead_alike raw), trivial, new, done, same, _, _, old, now⟩

end Node

end QueryTree
