import QueryTree.Proofs.Frames

/-! What an edit inside a query leaves alone. Queries and CTE lists show no more than
key and tag, so no ancestor reads on through them, and only the siblings of the
edited child remain. CTEs see those before them, selects see all CTEs of their
query, and nothing sees a select. -/

namespace QueryTree.Node

variable {n n' c c' m m' : Node} {before after : List Node} {place keys : List Key}

namespace Frame

/-! ## CTEs and selects -/

/-- A CTE is not seen by those before it. -/
theorem scopeBelow_earlier {root new ctes ctes' cte cte' earlier : Node}
    (frame : Frame place root new ctes ctes') (edit : Rebuilt ctes ctes' before cte cte' after)
    (tag : ctes.tag = .ctes) (h : earlier ∈ before) (scope : Scope) (keys : List Key) :
    new.scopeBelow scope (place ++ earlier.key :: keys) =
      root.scopeBelow scope (place ++ earlier.key :: keys) := by
  refine frame.scopeBelow_through (edit.face_eq_of_hidden (.inr tag)) (fun scope => ?_) scope
  exact edit.scopeBelow_before (edit.samePass_of_ctes tag) h scope keys

/-- Outside a CTE only its table is seen. -/
theorem scopeBelow_besides {root new ctes ctes' cte cte' : Node}
    (frame : Frame place root new ctes ctes') (edit : Rebuilt ctes ctes' before cte cte' after)
    (tag : ctes.tag = .ctes) (tables : cteTables [cte'] = cteTables [cte]) (scope : Scope)
    {keys : List Key} (outside : ¬ place ++ [cte.key] <+: keys) :
    new.scopeBelow scope keys = root.scopeBelow scope keys := by
  refine frame.scopeBelow_outside (edit.face_eq_of_hidden (.inr tag)) (edit.cteTables_eq tables)
    ?_ scope keys outside
  intro scope keys hkeys
  cases keys with
  | nil => rw [scopeBelow, scopeBelow]
  | cons key keys =>
    have hk : key ≠ cte.key := by
      intro h
      exact hkeys (List.cons_prefix_cons.2 ⟨h.symm, List.nil_prefix⟩)
    exact edit.scopeBelow_sibling (edit.samePass_of_ctes tag) (fun _ => tables) hk scope keys

/-- A select of a query is not seen by the other children of the query. -/
theorem scopeBelow_beside_select {root new query query' select select' : Node}
    (frame : Frame place root new query query')
    (edit : Rebuilt query query' before select select' after) (queryTag : query.tag = .query)
    (selectTag : select.tag = .select) {key : Key} (hk : key ≠ select.key) (scope : Scope)
    (keys : List Key) :
    new.scopeBelow scope (place ++ key :: keys) = root.scopeBelow scope (place ++ key :: keys) := by
  refine frame.scopeBelow_through (edit.face_eq_of_hidden (.inl queryTag)) (fun scope => ?_) scope
  refine edit.scopeBelow_sibling (edit.samePass_of_select queryTag selectTag) ?_ hk scope keys
  intro ctes
  rw [queryTag] at ctes
  cases ctes

end Frame

/-! ## Edits below one child -/

/-- The child of the node at a place that its key finds, with the siblings before it. -/
structure ChildAt (root : Node) (place : List Key) (parent : Node) (before : List Node)
    (child : Node) : Prop where
  leads : root.descend place = some parent
  children : ∃ after, parent.children = before ++ child :: after
  first : ∀ b ∈ before, b.key ≠ child.key

/-- The path leads from the root to the node at a place, or on below it. -/
def Within (root : Node) (path place : List Key) : Prop := root.key :: place <+: path

instance (root : Node) (path place : List Key) : Decidable (Within root path place) :=
  inferInstanceAs (Decidable (_ <+: _))

theorem scopeAt_congr {root new : Node} {base : Scope} {path : List Key}
    (key : new.key = root.key)
    (below : ∀ keys, path = root.key :: keys →
      new.scopeBelow base keys = root.scopeBelow base keys) :
    new.scopeAt base path = root.scopeAt base path := by
  cases path with
  | nil => rfl
  | cons k keys =>
    rw [scopeAt, scopeAt, key]
    by_cases hk : k = root.key
    · rw [if_pos hk, if_pos hk]
      exact below keys (by rw [hk])
    · rw [if_neg hk, if_neg hk]

theorem Within.scopeAt_eq {root new : Node} {base : Scope} {path : List Key} {child : Key}
    (within : Within root path (place ++ [child])) (key : new.key = root.key)
    (below : ∀ keys, new.scopeBelow base (place ++ child :: keys) =
      root.scopeBelow base (place ++ child :: keys)) :
    new.scopeAt base path = root.scopeAt base path := by
  obtain ⟨keys, hp⟩ := within
  refine scopeAt_congr key fun rest hrest => ?_
  have way : place ++ child :: keys = rest := by
    rw [hrest] at hp
    simpa using (List.cons.inj hp).2
  rw [← way]
  exact below keys

/-- An edit at or below a child is a frame down to its parent and then one step. -/
theorem ChildAt.rebuilt {root new parent child t r : Node} {keys : List Key}
    (found : ChildAt root place parent before child) (within : place ++ [child.key] <+: keys)
    (ht : root.descend keys = some t) (key : r.key = t.key) (tag : r.tag = t.tag)
    (hr : replaceBelow r root keys = .ok new) :
    ∃ after parent' child', Frame place root new parent parent' ∧
      Rebuilt parent parent' before child child' after := by
  obtain ⟨after, children⟩ := found.children
  obtain ⟨rest, rfl⟩ := within
  rw [List.append_assoc, List.singleton_append] at ht hr
  obtain ⟨parent', hr', frame⟩ := Frame.of_replaceBelow found.leads ht key tag hr
  obtain ⟨child', hc', result⟩ := replaceBelow_split_eq_ok children found.first hr'
  have below : child.descend rest = some t := by
    rw [descend_append, found.leads, Option.bind_some, descend_cons,
      child_eq_of_split children found.first] at ht
    exact ht
  obtain ⟨sameKey, sameTag⟩ := head_replaceBelow below key tag hc'
  exact ⟨after, parent', child', frame, children, found.first, sameKey, sameTag, result⟩

theorem cteTables_eq_of_table (tag : c'.tag = c.tag)
    (same : c.tag ≠ .cte ∨ c'.cteTable? = c.cteTable?) : cteTables [c'] = cteTables [c] := by
  by_cases cte : c.tag = .cte
  · have table : c'.cteTable? = c.cteTable? := same.resolve_left fun h => h cte
    simp [cteTables, tag, cte, table, List.filterMap_cons]
  · simp [cteTables, tag, cte]

/-- An edit within one CTE is not seen by the CTEs before it, and by nothing outside
that CTE if its table stays the same. An edit within a select of a query is not
seen by the other children of the query. -/
theorem edit_keeps_scopes {root t r : Node} {path : List Key}
    (located : root.locate path = .ok t) (key : r.key = t.key) (tag : r.tag = t.tag) :
    ∃ new, root.replaceAt path r = .ok new ∧ ∀ base : Scope,
      (∀ place ctes before cte, ctes.tag = .ctes → ChildAt root place ctes before cte →
        place ++ [cte.key] <+: path.tail →
          (∀ earlier ∈ before, ∀ q, Within root q (place ++ [earlier.key]) →
            new.scopeAt base q = root.scopeAt base q) ∧
          ((cte.tag ≠ .cte ∨
              (new.descend (place ++ [cte.key])).bind cteTable? = cte.cteTable?) →
            ∀ q, ¬ Within root q (place ++ [cte.key]) →
              new.scopeAt base q = root.scopeAt base q)) ∧
      ∀ place query before select, query.tag = .query → ChildAt root place query before select →
        select.tag = .select → place ++ [select.key] <+: path.tail →
          ∀ other ∈ query.children, other.key ≠ select.key →
            ∀ q, Within root q (place ++ [other.key]) →
              new.scopeAt base q = root.scopeAt base q := by
  obtain ⟨nonempty, ht⟩ := locate_eq_ok.1 located
  obtain ⟨new, hr⟩ := exists_replaceBelow ht r
  have sameKey : new.key = root.key := (head_replaceBelow ht key tag hr).1
  refine ⟨new, replaceAt_eq_ok.2 ⟨nonempty, hr⟩, fun base => ⟨?_, ?_⟩⟩
  · intro place ctes before cte ctesTag found within
    obtain ⟨after, ctes', cte', frame, edit⟩ := found.rebuilt within ht key tag hr
    refine ⟨?_, ?_⟩
    · intro earlier hearlier q hq
      exact hq.scopeAt_eq sameKey (frame.scopeBelow_earlier edit ctesTag hearlier base)
    · intro same q outside
      have shown : (new.descend (place ++ [cte.key])).bind cteTable? = cte'.cteTable? := by
        rw [descend_append, frame.descend_eq, Option.bind_some, edit.descend_eq rfl]
        rfl
      rw [shown] at same
      have tables : cteTables [cte'] = cteTables [cte] := cteTables_eq_of_table edit.tag same
      refine scopeAt_congr sameKey fun keys hkeys => ?_
      refine frame.scopeBelow_besides edit ctesTag tables base fun below => outside ?_
      rw [hkeys]
      exact List.cons_prefix_cons.2 ⟨rfl, below⟩
  · intro place query before select queryTag found selectTag within other _ hother q hq
    obtain ⟨after, query', select', frame, edit⟩ := found.rebuilt within ht key tag hr
    exact hq.scopeAt_eq sameKey
      (frame.scopeBelow_beside_select edit queryTag selectTag hother base)

/-- A CTE with an alias. -/
def namedCte (name : String) (select : Node) : Node :=
  { key := ⟨name⟩, tag := .cte, kids := some [
      { key := ⟨name ++ ".alias"⟩, tag := .aliasName, data := { aliasText := some name } },
      select] }

def recent : Node :=
  namedCte "recent" (selectFrom "days" [pickedColumn "day" "orders.day"] "orders")

def weekly : Node :=
  namedCte "weekly" (selectFrom "weeks" [pickedColumn "week" "day"] "recent")

def recentAndWeekly : Node := { key := ⟨"ctes"⟩, tag := .ctes, kids := some [recent, weekly] }

def fromWeekly : Node := selectFrom "outer" [pickedColumn "seen" "week"] "weekly"

/-- Two CTEs, of which the second reads the first, and a select that reads the second. -/
def recentWeeks : Node :=
  { key := ⟨"query"⟩, tag := .query, kids := some [recentAndWeekly, fromWeekly] }

/-- Another table under the second CTE matters neither to the first CTE nor to the
select around both, and a condition in that select does not matter to the CTEs. -/
theorem recentWeeks_edits :
    (∃ new, recentWeeks.replaceAt
        [⟨"query"⟩, ⟨"ctes"⟩, ⟨"weekly"⟩, ⟨"weeks"⟩, ⟨"weeks.from"⟩, ⟨"weeks.table"⟩]
        { key := ⟨"weeks.table"⟩, tag := .table, data := { selected := some ⟨"orders"⟩ } } =
          .ok new ∧
      new.scopeAt {} [⟨"query"⟩, ⟨"ctes"⟩, ⟨"recent"⟩, ⟨"days"⟩] =
        recentWeeks.scopeAt {} [⟨"query"⟩, ⟨"ctes"⟩, ⟨"recent"⟩, ⟨"days"⟩] ∧
      new.scopeAt {} [⟨"query"⟩, ⟨"outer"⟩, ⟨"outer.from"⟩] =
        recentWeeks.scopeAt {} [⟨"query"⟩, ⟨"outer"⟩, ⟨"outer.from"⟩]) ∧
    ∃ new, recentWeeks.replaceAt [⟨"query"⟩, ⟨"outer"⟩, ⟨"outer.where"⟩]
        { key := ⟨"outer.where"⟩, tag := .whereClause, data := { rawSql := some "seen" } } =
          .ok new ∧
      new.scopeAt {} [⟨"query"⟩, ⟨"ctes"⟩, ⟨"weekly"⟩] =
        recentWeeks.scopeAt {} [⟨"query"⟩, ⟨"ctes"⟩, ⟨"weekly"⟩] := by
  refine ⟨?_, ?_⟩
  · have located : recentWeeks.locate
        [⟨"query"⟩, ⟨"ctes"⟩, ⟨"weekly"⟩, ⟨"weeks"⟩, ⟨"weeks.from"⟩, ⟨"weeks.table"⟩] =
          .ok { key := ⟨"weeks.table"⟩, tag := .table, data := { selected := some ⟨"recent"⟩ } } :=
      rfl
    have found : ChildAt recentWeeks [⟨"ctes"⟩] recentAndWeekly [recent] weekly :=
      ⟨rfl, ⟨[], rfl⟩, by decide⟩
    obtain ⟨new, edited, kept⟩ := edit_keeps_scopes
      (r := { key := ⟨"weeks.table"⟩, tag := .table, data := { selected := some ⟨"orders"⟩ } })
      located rfl rfl
    have table : (new.descend [⟨"ctes"⟩, ⟨"weekly"⟩]).bind cteTable? = weekly.cteTable? := by
      cases edited
      decide
    obtain ⟨before, outside⟩ := (kept {}).1 _ _ _ _ rfl found (by decide)
    exact ⟨new, edited, before recent (by simp) _ (by decide), outside (.inr table) _ (by decide)⟩
  · have located : recentWeeks.locate [⟨"query"⟩, ⟨"outer"⟩, ⟨"outer.where"⟩] =
        .ok { key := ⟨"outer.where"⟩, tag := .whereClause } := rfl
    have found : ChildAt recentWeeks [] recentWeeks [recentAndWeekly] fromWeekly :=
      ⟨rfl, ⟨[], rfl⟩, by decide⟩
    obtain ⟨new, edited, kept⟩ := edit_keeps_scopes
      (r := { key := ⟨"outer.where"⟩, tag := .whereClause, data := { rawSql := some "seen" } })
      located rfl rfl
    have beside := (kept {}).2 _ _ _ _ rfl found rfl (by decide)
    exact ⟨new, edited, beside recentAndWeekly List.mem_cons_self (by decide) _ (by decide)⟩

end QueryTree.Node
