import QueryTree.Proofs.Change
import QueryTree.Proofs.CteModularity
import QueryTree.Proofs.Likeness

/-! What a picker offers can be picked. The offer is read off the scopes of the tree
before the pick, and the pick is resolved in those of the tree after it. A variable
passes nothing on, so all scopes stay as they are. A table changes the columns on
offer around it, but the tables in scope stay the same everywhere. -/

namespace QueryTree

def Dangling.isTable : Dangling → Bool
  | table .. => true
  | column .. => false

namespace Node

/-! ## One payload rewritten -/

/-- Payloads stay as they are, except at nodes with the key and tag of one node. -/
def ChangedAt (t n : Node) (data : Payload) : Prop :=
  data = n.data ∨ n.key = t.key ∧ n.tag = t.tag

theorem keepsNames_changedAt {t : Node} (h : t.tag ≠ .aliasName) : KeepsNames (ChangedAt t) := by
  rintro n data (rfl | ⟨-, same⟩) tag
  · rfl
  · exact absurd (same.symm.trans tag) h

theorem keepsPicks_changedAt {t : Node} (h : t.tag ≠ .table) : KeepsPicks (ChangedAt t) := by
  rintro n data (rfl | ⟨-, same⟩) tag
  · rfl
  · exact absurd (same.symm.trans tag) h

/-- The second tree is the first one with another payload at one node. -/
structure Rewritten (root t : Node) (data : Payload) (new : Node) : Prop where
  distinct : root.Distinct
  newDistinct : new.Distinct
  was : t ∈ root.preorder
  put : t.withData data ∈ new.preorder
  alike : Alike (ChangedAt t) root new

namespace Rewritten

variable {root t new : Node} {data : Payload} {base : Scope}

theorem of_replaceBelow {keys : List Key} (distinct : root.Distinct)
    (ht : root.descend keys = some t) (h : replaceBelow (t.withData data) root keys = .ok new) :
    Rewritten root t data new where
  distinct := distinct
  newDistinct := by
    have mem : t ∈ root.preorder := descend_mem ht
    have tag : (t.withData data).tag = t.tag := rfl
    refine (distinct.replaceBelow ht tag h).2 ⟨?_, fun key hk _ => ?_⟩
    · unfold Distinct
      rw [keys_withData]
      exact distinct.of_mem mem
    · rwa [keys_withData] at hk
  was := descend_mem ht
  put := by
    have whole : keys = keys ++ [] := (List.append_nil keys).symm
    have last : root.descend (keys ++ []) = some t := whole ▸ ht
    have done : replaceBelow (t.withData data) root (keys ++ []) = .ok new := whole ▸ h
    obtain ⟨m', hm, frame⟩ := Frame.of_replaceBelow (r := t.withData data) ht last rfl rfl done
    rw [replaceBelow_nil] at hm
    obtain rfl := Except.ok.inj hm
    exact descend_mem frame.descend_eq
  alike := .of_replaceBelow (fun _ => .inl rfl) ht (.inr ⟨rfl, rfl⟩) h

/-- Nodes at the same place carry the same, or are those with the old and the new payload. -/
theorem same_or_changed (h : Rewritten root t data new) {n n' : Node} (hn : n ∈ root.preorder)
    (hn' : n' ∈ new.preorder) (same : Alike (ChangedAt t) n n') :
    (n.key ≠ t.key ∧ n'.data = n.data) ∨ n = t ∧ n' = t.withData data := by
  by_cases key : n.key = t.key
  · refine .inr ⟨h.distinct.eq_of_key_eq hn h.was key, ?_⟩
    exact h.newDistinct.eq_of_key_eq hn' h.put (same.key.trans key)
  · exact .inl ⟨key, same.data.resolve_right fun other => key other.1⟩

/-- What is said of tables depends on the tables in scope only. -/
theorem filter_isTable_danglingPick? {n : Node} {scope scope' : Scope}
    (same : scope.SameTables scope') :
    (n.danglingPick? scope').filter (·.isTable) = (n.danglingPick? scope).filter (·.isTable) := by
  unfold danglingPick?
  cases n.data.picked? with
  | none => rfl
  | some key =>
    rw [Option.bind_some, Option.bind_some, same.findTable?_eq]
    cases n.tag with
    | var =>
      dsimp only
      split <;> split <;> rfl
    | _ => rfl

/-- If the new pick resolves, the report loses what it said of that node. Reports
are compared as far as `p` looks at them, in scopes that are the same to `p`. -/
theorem filter_dangling (h : Rewritten root t data new) {S : Scope → Scope → Prop}
    {p : Dangling → Bool}
    (entries : List.Forall₂
      (fun entry entry' => Alike (ChangedAt t) entry.1 entry'.1 ∧ S entry.2 entry'.2)
      (root.scopedPreorder base) (new.scopedPreorder base))
    (judged : ∀ n scope scope', S scope scope' →
      (danglingPick? scope' n).filter p = (danglingPick? scope n).filter p)
    (resolved : ∀ scope scope', (t, scope) ∈ root.scopedPreorder base → S scope scope' →
      danglingPick? scope' (t.withData data) = none) :
    (new.dangling base).filter p =
      (root.dangling base).filter fun d => p d && d.node ≠ t.key := by
  rw [h.newDistinct.dangling_eq, h.distinct.dangling_eq, List.filter_filterMap,
    List.filter_filterMap]
  refine filterMap_eq_of_forall₂ (forall₂_mem entries) ?_
  rintro ⟨n, scope⟩ ⟨n', scope'⟩ ⟨hn, hn', same, hs⟩
  dsimp only at same hs ⊢
  have mem : n ∈ root.preorder := by
    rw [← map_fst_scopedPreorder root base]
    exact List.mem_map_of_mem hn
  have mem' : n' ∈ new.preorder := by
    rw [← map_fst_scopedPreorder new base]
    exact List.mem_map_of_mem hn'
  rcases h.same_or_changed mem mem' same with ⟨other, kept⟩ | ⟨rfl, rfl⟩
  · rw [danglingPick?_congr same.key same.tag kept, judged n scope scope' hs]
    cases pick : n.danglingPick? scope with
    | none => rfl
    | some d =>
      have named : d.node = n.key := danglingPick?_node pick
      simp [Option.filter_some, named, other]
  · rw [resolved scope scope' hn hs, Option.filter_none]
    refine (Option.filter_eq_none_iff.2 fun d hd => ?_).symm
    simp [danglingPick?_node hd]

/-- A variable passes nothing on. If its new pick resolves, only its own entry
leaves the report. -/
theorem of_var (h : Rewritten root t data new) (tag : t.tag = .var)
    (resolved : ∀ scope, (t, scope) ∈ root.scopedPreorder base →
      danglingPick? scope (t.withData data) = none) :
    new.scopes base = root.scopes base ∧ (∀ path, new.scopeAt base path = root.scopeAt base path) ∧
      new.dangling base = (root.dangling base).filter (·.node ≠ t.key) := by
  have names : KeepsNames (ChangedAt t) := keepsNames_changedAt (by simp [tag])
  have picks : KeepsPicks (ChangedAt t) := keepsPicks_changedAt (by simp [tag])
  have reported : (new.dangling base).filter (fun _ => true) =
      (root.dangling base).filter fun d => true && d.node ≠ t.key := by
    refine h.filter_dangling (h.alike.scopedPreorder_of_keeps names picks base) ?_ ?_
    · rintro n scope _ rfl
      rfl
    · rintro scope _ hs rfl
      exact resolved scope hs
  exact ⟨h.alike.scopes_eq names picks base, h.alike.scopeAt_eq names picks base,
    by simpa using reported⟩

/-- A table passes columns on, and no tables. If its new pick resolves, only its own
entry leaves what the report says of tables. -/
theorem of_table (h : Rewritten root t data new) (tag : t.tag = .table)
    (resolved : ∀ scope scope', (t, scope) ∈ root.scopedPreorder base →
      scope.SameTables scope' → danglingPick? scope' (t.withData data) = none) :
    (∀ key, ((new.scopes base).get? key).map (·.visibleTables) =
        ((root.scopes base).get? key).map (·.visibleTables)) ∧
      (∀ path, (new.scopeAt base path).map (·.visibleTables) =
        (root.scopeAt base path).map (·.visibleTables)) ∧
      (new.dangling base).filter (·.isTable) =
        (root.dangling base).filter fun d => d.isTable && d.node ≠ t.key := by
  have names : KeepsNames (ChangedAt t) := keepsNames_changedAt (by simp [tag])
  refine ⟨h.alike.visibleTables_scopes names base, h.alike.visibleTables_scopeAt names base, ?_⟩
  refine h.filter_dangling (h.alike.scopedPreorder_of_keepsNames names base) ?_ resolved
  intro n scope scope' same
  exact filter_isTable_danglingPick? same

end Rewritten

/-! ## Picks -/

/-- The payload with a pick of the key. -/
def pick (key : Key) (t : Node) : Payload := (PayloadEdit.select (some key)).apply t.data

theorem danglingPick?_of_column {t : Node} {scope : Scope} {c : Schema.Column} (tag : t.tag = .var)
    (hc : c ∈ scope.offer.columns) :
    danglingPick? scope (t.withData (pick c.key t)) = none := by
  refine Option.eq_none_iff_forall_not_mem.2 fun d hd => ?_
  obtain ⟨key, picked, reason⟩ := danglingPick?_eq_some.1 hd
  obtain ⟨selected, -⟩ := Payload.picked?_eq_some_iff.1 picked
  obtain rfl : c.key = key := Option.some.inj selected
  rcases reason with ⟨table, -⟩ | ⟨-, -, missing, -⟩
  · exact absurd (tag.symm.trans table) (by decide)
  · simpa using List.find?_eq_none.1 missing c hc

theorem danglingPick?_of_table {t : Node} {scope : Scope} {table : Schema.Table}
    (tag : t.tag = .table) (ht : table ∈ scope.visibleTables) :
    danglingPick? scope (t.withData (pick table.key t)) = none := by
  refine Option.eq_none_iff_forall_not_mem.2 fun d hd => ?_
  obtain ⟨key, picked, reason⟩ := danglingPick?_eq_some.1 hd
  obtain ⟨selected, -⟩ := Payload.picked?_eq_some_iff.1 picked
  obtain rfl : table.key = key := Option.some.inj selected
  rcases reason with ⟨-, missing, -⟩ | ⟨var, -⟩
  · simpa using List.find?_eq_none.1 missing table ht
  · exact absurd (tag.symm.trans var) (by decide)

/-- A column that is on offer to a variable, and a table in scope of a table node, can
be picked there. -/
theorem offered_picks_resolve {root t : Node} {path : List Key} {base scope : Scope}
    (distinct : root.Distinct) (found : root.nodeAt path = some t)
    (here : root.scopeAt base path = some scope) (key : Key) (kind : KeyKind)
    (supply : Supply) :
    ∃ new, ((Gesture.edit (.select (some key))).request kind t path supply).1.apply root = .ok new ∧
      (t.tag = .var → (∃ c ∈ scope.offer.columns, c.key = key) →
        new.scopes base = root.scopes base ∧
          (∀ q, new.scopeAt base q = root.scopeAt base q) ∧
          new.dangling base = (root.dangling base).filter (·.node ≠ t.key)) ∧
      (t.tag = .table → (∃ table ∈ scope.visibleTables, table.key = key) →
        (∀ k, ((new.scopes base).get? k).map (·.visibleTables) =
            ((root.scopes base).get? k).map (·.visibleTables)) ∧
          (∀ q, (new.scopeAt base q).map (·.visibleTables) =
            (root.scopeAt base q).map (·.visibleTables)) ∧
          (new.dangling base).filter (·.isTable) =
            (root.dangling base).filter fun d => d.isTable && d.node ≠ t.key) := by
  obtain ⟨keys, rfl, ht⟩ := nodeAt_eq_some.1 found
  obtain ⟨new, hr⟩ := exists_replaceBelow ht (t.withData (pick key t))
  have written : Rewritten root t (pick key t) new := .of_replaceBelow distinct ht hr
  -- the scope at the path is the one that the whole pass gives the node
  have own : (t, scope) ∈ root.scopedPreorder base := by
    rw [scopeAt_cons_self] at here
    exact mem_scopedPreorder_of_scopeBelow ht here
  have only : ∀ inner, (t, inner) ∈ root.scopedPreorder base → inner = scope := fun inner hi =>
    (Prod.mk.inj (distinct.entry_eq hi own rfl)).2
  have done : root.replaceAt (root.key :: keys) (t.withData (pick key t)) = .ok new :=
    replaceAt_eq_ok.2 ⟨List.cons_ne_nil _ _, hr⟩
  refine ⟨new, done, fun tag offered => ?_, fun tag visible => ?_⟩
  · obtain ⟨c, hc, rfl⟩ := offered
    refine written.of_var tag fun inner hi => danglingPick?_of_column tag ?_
    rwa [only inner hi]
  · obtain ⟨table, htable, rfl⟩ := visible
    refine written.of_table tag fun inner inner' hi same => danglingPick?_of_table tag ?_
    rwa [same.visibleTables_eq, only inner hi]

/-- The two CTEs with a select that reads a column of a table, whether or not there
are such. -/
def weeksRead (column table : String) : Node :=
  { key := ⟨"query"⟩, tag := .query, kids := some [
      recentAndWeekly, selectFrom "outer" [pickedColumn "seen" column] table] }

/-- A table that is missing gives way to the second CTE, and then a column that is
missing to the one that this CTE has. -/
theorem weeksRead_mended :
    (weeksRead "month" "monthly").Distinct ∧ (weeksRead "month" "weekly").Distinct ∧
    (∃ t new, (weeksRead "month" "monthly").nodeAt
        [⟨"query"⟩, ⟨"outer"⟩, ⟨"outer.from"⟩, ⟨"outer.table"⟩] = some t ∧ t.tag = .table ∧
      (weeksRead "month" "monthly").replaceAt
        [⟨"query"⟩, ⟨"outer"⟩, ⟨"outer.from"⟩, ⟨"outer.table"⟩] (t.withData (pick ⟨"weekly"⟩ t)) =
          .ok new ∧
      (new.dangling {}).filter (·.isTable) = [.table ⟨"days.table"⟩ ⟨"orders"⟩]) ∧
    ∃ t new, (weeksRead "month" "weekly").nodeAt
        [⟨"query"⟩, ⟨"outer"⟩, ⟨"outer.columns"⟩, ⟨"seen"⟩, ⟨"seen.var"⟩] = some t ∧ t.tag = .var ∧
      (weeksRead "month" "weekly").replaceAt
        [⟨"query"⟩, ⟨"outer"⟩, ⟨"outer.columns"⟩, ⟨"seen"⟩, ⟨"seen.var"⟩]
          (t.withData (pick ⟨"week"⟩ t)) = .ok new ∧
      new.dangling {} =
        [.column ⟨"day.var"⟩ ⟨"orders.day"⟩, .table ⟨"days.table"⟩ ⟨"orders"⟩] := by
  have distinct : (weeksRead "month" "monthly").Distinct := by decide
  have distinct' : (weeksRead "month" "weekly").Distinct := by decide
  refine ⟨distinct, distinct', ?_, ?_⟩
  · obtain ⟨t, found, tag⟩ : ∃ t, (weeksRead "month" "monthly").nodeAt
        [⟨"query"⟩, ⟨"outer"⟩, ⟨"outer.from"⟩, ⟨"outer.table"⟩] = some t ∧ t.tag = .table :=
      ⟨_, rfl, rfl⟩
    obtain ⟨scope, here, visible⟩ : ∃ scope, (weeksRead "month" "monthly").scopeAt {}
        [⟨"query"⟩, ⟨"outer"⟩, ⟨"outer.from"⟩, ⟨"outer.table"⟩] = some scope ∧
          ∃ table ∈ scope.visibleTables, table.key = ⟨"weekly"⟩ := ⟨_, rfl, by decide⟩
    obtain ⟨new, done, -, picked⟩ :=
      offered_picks_resolve distinct found here ⟨"weekly"⟩ .sequential { random := id }
    obtain ⟨-, -, reported⟩ := picked tag visible
    have key : t.key = ⟨"outer.table"⟩ := by
      cases found
      rfl
    refine ⟨t, new, found, tag, done, ?_⟩
    rw [reported, key]
    decide
  · obtain ⟨t, found, tag⟩ : ∃ t, (weeksRead "month" "weekly").nodeAt
        [⟨"query"⟩, ⟨"outer"⟩, ⟨"outer.columns"⟩, ⟨"seen"⟩, ⟨"seen.var"⟩] = some t ∧ t.tag = .var :=
      ⟨_, rfl, rfl⟩
    obtain ⟨scope, here, offered⟩ : ∃ scope, (weeksRead "month" "weekly").scopeAt {}
        [⟨"query"⟩, ⟨"outer"⟩, ⟨"outer.columns"⟩, ⟨"seen"⟩, ⟨"seen.var"⟩] = some scope ∧
          ∃ c ∈ scope.offer.columns, c.key = ⟨"week"⟩ := ⟨_, rfl, by decide⟩
    obtain ⟨new, done, picked, -⟩ :=
      offered_picks_resolve distinct' found here ⟨"week"⟩ .sequential { random := id }
    obtain ⟨-, -, reported⟩ := picked tag offered
    have key : t.key = ⟨"seen.var"⟩ := by
      cases found
      rfl
    refine ⟨t, new, found, tag, done, ?_⟩
    rw [reported, key]
    decide

end Node

end QueryTree
