import QueryTree.Proofs.Paths
import QueryTree.Scope.Derivation
import Mathlib.Data.List.Induction

/-! The two ways to derive scopes. The pass over a whole tree gives every node of
the pre-order its scope and files it under the key of the node; the pass along a
path stops at one node. Where keys are distinct, nothing is filed twice and both
give each node the same scope. -/

namespace QueryTree

/-! ## Maps filled from a list -/

namespace KeyMap

variable {α : Type}

theorem ofList_concat (entries : List (Key × α)) (entry : Key × α) :
    ofList (entries ++ [entry]) = (ofList entries).put entry.1 entry.2 := by
  simp [ofList]

/-- Of the entries of one key the last one counts. -/
theorem get?_ofList (entries : List (Key × α)) (key : Key) :
    (ofList entries).get? key = entries.reverse.lookup key := by
  induction entries using List.reverseRecOn with
  | nil => rfl
  | append_singleton entries entry ih =>
    rw [ofList_concat, get?_put, ih, List.reverse_concat, List.lookup_cons]
    by_cases h : key = entry.1
    · simp [h]
    · rw [if_neg h, beq_false_of_ne h]

/-- Each key stands where its first entry stood. -/
theorem keys_ofList (entries : List (Key × α)) :
    (ofList entries).keys = (entries.map Prod.fst).eraseDups := by
  induction entries using List.reverseRecOn with
  | nil => rfl
  | append_singleton entries entry ih =>
    rw [ofList_concat, keys_put, ih, List.map_append, List.eraseDups_append]
    by_cases h : entry.1 ∈ entries.map Prod.fst
    · simp [h, List.mem_eraseDups, List.removeAll]
    · simp [h, List.mem_eraseDups, List.removeAll, List.eraseDups_cons]

theorem size_eq_length_keys (map : KeyMap α) : map.size = map.keys.length := by
  simp [size, keys]

section Nodup

variable {entries : List (Key × α)} (h : (entries.map Prod.fst).Nodup)
include h

theorem size_ofList_of_nodup : (ofList entries).size = entries.length := by
  have distinct {keys : List Key} (hk : keys.Nodup) : keys.eraseDups = keys := by
    induction keys with
    | nil => rfl
    | cons key keys ih =>
      obtain ⟨hnew, hrest⟩ := List.nodup_cons.1 hk
      rw [List.eraseDups_cons, List.filter_eq_self.2, ih hrest]
      intro other ho
      have hne : other ≠ key := fun e => hnew (e ▸ ho)
      simpa using hne
  rw [size_eq_length_keys, keys_ofList, distinct h, List.length_map]

theorem get?_ofList_of_mem {key : Key} {value : α} (hm : (key, value) ∈ entries) :
    (ofList entries).get? key = some value := by
  rw [get?_ofList]
  have hrev : (entries.reverse.map Prod.fst).Nodup := by
    rw [List.map_reverse]
    exact List.nodup_reverse.2 h
  have hmem : (key, value) ∈ entries.reverse := List.mem_reverse.2 hm
  generalize entries.reverse = rest at hrev hmem
  induction rest with
  | nil => cases hmem
  | cons entry rest ih =>
    rw [List.map_cons, List.nodup_cons] at hrev
    rcases List.mem_cons.1 hmem with rfl | hmem
    · simp
    · have hne : key ≠ entry.1 := fun e => hrev.1 (e ▸ List.mem_map_of_mem hmem)
      rw [List.lookup_cons, beq_false_of_ne hne]
      exact ih hrev.2 hmem

end Nodup

end KeyMap

namespace Node

/-! ## The pass over a whole tree -/

theorem map_fst_scopedPreorder (n : Node) (scope : Scope) :
    (n.scopedPreorder scope).map Prod.fst = n.preorder := by
  induction n using children_induction generalizing scope with
  | step n ih =>
    rw [scopedPreorder_eq, preorder_eq, List.map_cons, List.map_flatMap,
      ← map_fst_scopedChildren scope n, List.flatMap_map]
    refine congrArg (n :: ·) (List.flatMap_congr fun entry he => ?_)
    refine ih entry.1 ?_ entry.2
    rw [← map_fst_scopedChildren scope n]
    exact List.mem_map_of_mem he

theorem mem_scopedPreorder_iff {n m : Node} {scope inner : Scope} :
    (m, inner) ∈ n.scopedPreorder scope ↔ (m = n ∧ inner = scope) ∨
      ∃ c middle, (c, middle) ∈ n.scopedChildren scope ∧ (m, inner) ∈ c.scopedPreorder middle := by
  rw [scopedPreorder_eq, List.mem_cons, List.mem_flatMap]
  simp

theorem scopes_keys (root : Node) (base : Scope) :
    ((root.scopedPreorder base).map fun (n, scope) => (n.key, scope)).map Prod.fst = root.keys := by
  rw [keys, ← map_fst_scopedPreorder root base]
  simp [Function.comp_def]

/-- Scopes are filed in the order in which the keys are first met. -/
theorem keys_scopes (root : Node) (base : Scope) :
    (root.scopes base).keys = root.keys.eraseDups := by
  rw [scopes, KeyMap.keys_ofList, scopes_keys]

/-- With distinct keys every node has an entry of its own. -/
theorem Distinct.size_scopes {root : Node} (h : root.Distinct) (base : Scope) :
    (root.scopes base).size = root.preorder.length := by
  rw [scopes, KeyMap.size_ofList_of_nodup (by rw [scopes_keys]; exact h),
    ← map_fst_scopedPreorder root base, List.length_map, List.length_map]

theorem Distinct.get?_scopes {root : Node} (h : root.Distinct) {base scope : Scope} {n : Node}
    (hn : (n, scope) ∈ root.scopedPreorder base) :
    (root.scopes base).get? n.key = some scope := by
  rw [scopes, KeyMap.get?_ofList_of_mem (by rw [scopes_keys]; exact h)]
  exact List.mem_map.2 ⟨(n, scope), hn, rfl⟩

/-- With distinct keys a node and its scope are found by the key. -/
theorem Distinct.entry_eq {root : Node} (h : root.Distinct) {base : Scope}
    {entry other : Node × Scope} (he : entry ∈ root.scopedPreorder base)
    (ho : other ∈ root.scopedPreorder base) (same : entry.1.key = other.1.key) : entry = other := by
  have nodup : ((root.scopedPreorder base).map (·.1.key)).Nodup := by
    unfold Distinct keys at h
    rwa [← map_fst_scopedPreorder root base, List.map_map] at h
  exact List.inj_on_of_nodup_map nodup he ho same

/-! ## The pass along a path -/

/-- The scope of a child is found where the child is. -/
theorem find?_scopedChildren (n : Node) (scope : Scope) (key : Key) :
    ((n.scopedChildren scope).find? (·.1.key = key)).map Prod.fst = n.child key := by
  rw [child, ← map_fst_scopedChildren scope n, List.find?_map]
  rfl

theorem isSome_scopeBelow (n : Node) (scope : Scope) (keys : List Key) :
    (n.scopeBelow scope keys).isSome = (n.descend keys).isSome := by
  induction keys generalizing n scope with
  | nil => rfl
  | cons key keys ih =>
    have hc := find?_scopedChildren n scope key
    rw [scopeBelow, descend_cons, ← hc]
    cases (n.scopedChildren scope).find? (·.1.key = key) with
    | none => rfl
    | some entry => exact ih entry.1 entry.2

/-- A scope found along a path is the one that the whole pass gives the node. -/
theorem mem_scopedPreorder_of_scopeBelow {n m : Node} {scope inner : Scope} {keys : List Key}
    (hm : n.descend keys = some m) (hs : n.scopeBelow scope keys = some inner) :
    (m, inner) ∈ n.scopedPreorder scope := by
  induction keys generalizing n scope with
  | nil =>
    obtain rfl := Option.some.inj hm
    obtain rfl := Option.some.inj hs
    exact mem_scopedPreorder_iff.2 (.inl ⟨rfl, rfl⟩)
  | cons key keys ih =>
    have hc := find?_scopedChildren n scope key
    rw [descend_cons, ← hc] at hm
    rw [scopeBelow] at hs
    cases found : (n.scopedChildren scope).find? (·.1.key = key) with
    | none => simp [found] at hs
    | some entry =>
      rw [found] at hm hs
      exact mem_scopedPreorder_iff.2
        (.inr ⟨entry.1, entry.2, List.mem_of_find?_eq_some found, ih hm hs⟩)

theorem scopeAt_cons_self (root : Node) (base : Scope) (keys : List Key) :
    root.scopeAt base (root.key :: keys) = root.scopeBelow base keys := by
  rw [scopeAt, if_pos rfl]

theorem isSome_scopeAt (root : Node) (base : Scope) (path : List Key) :
    (root.scopeAt base path).isSome = (root.nodeAt path).isSome := by
  cases path with
  | nil => rfl
  | cons key keys =>
    rw [scopeAt, nodeAt]
    split
    · exact isSome_scopeBelow root base keys
    · rfl

/-! ## Agreement -/

/-- Both passes give a node the same scope, wherever keys are distinct, and the
pass along a path finds one exactly where there is a node. -/
theorem scope_passes_agree (root : Node) (base : Scope) :
    (root.Distinct → (∀ n ∈ root.preorder, ∃ path, root.nodeAt path = some n) ∧
      ∀ path n, root.nodeAt path = some n → ∃ scope, root.scopeAt base path = some scope ∧
        (root.scopes base).get? n.key = some scope) ∧
    ∀ path, (root.scopeAt base path).isSome ↔ (root.nodeAt path).isSome := by
  refine ⟨fun distinct => ⟨fun n hn => ?_, fun path n found => ?_⟩, fun path => ?_⟩
  · obtain ⟨keys, hd⟩ := distinct.exists_descend hn
    exact ⟨root.key :: keys, nodeAt_eq_some.2 ⟨keys, rfl, hd⟩⟩
  · have some := isSome_scopeAt root base path
    rw [found, Option.isSome_some, Option.isSome_iff_exists] at some
    obtain ⟨scope, hs⟩ := some
    obtain ⟨keys, rfl, hd⟩ := nodeAt_eq_some.1 found
    refine ⟨scope, hs, distinct.get?_scopes (mem_scopedPreorder_of_scopeBelow hd ?_)⟩
    rwa [← scopeAt_cons_self]
  · rw [isSome_scopeAt]

/-- A select over one table with given columns. -/
def selectFrom (name : String) (columns : List Node) (pick : String) : Node :=
  { key := ⟨name⟩, tag := .select, kids := some [
      { key := ⟨name ++ ".columns"⟩, tag := .columns, kids := some columns },
      { key := ⟨name ++ ".from"⟩, tag := .fromClause, kids := some [
        { key := ⟨name ++ ".table"⟩, tag := .table, data := { selected := some ⟨pick⟩ } }] },
      { key := ⟨name ++ ".where"⟩, tag := .whereClause }] }

/-- A picked column with an alias. -/
def pickedColumn (name pick : String) : Node :=
  { key := ⟨name⟩, tag := .column, kids := some [
      { key := ⟨name ++ ".var"⟩, tag := .var, data := { selected := some ⟨pick⟩ } },
      { key := ⟨name ++ ".alias"⟩, tag := .aliasName, data := { aliasText := some name } }] }

/-- A query that reads a column of its own CTE, which reads a table of orders. -/
def recentDays : Node :=
  { key := ⟨"query"⟩, tag := .query, kids := some [
      { key := ⟨"ctes"⟩, tag := .ctes, kids := some [
        { key := ⟨"recent"⟩, tag := .cte, kids := some [
          { key := ⟨"recent.alias"⟩, tag := .aliasName, data := { aliasText := some "recent" } },
          selectFrom "inner" [pickedColumn "day" "orders.day"] "orders"] }] },
      selectFrom "outer" [pickedColumn "seen" "day"] "recent"] }

theorem recentDays_scope :
    recentDays.Distinct ∧ ∃ n scope,
      recentDays.nodeAt [⟨"query"⟩, ⟨"outer"⟩, ⟨"outer.from"⟩] = some n ∧
        recentDays.scopeAt {} [⟨"query"⟩, ⟨"outer"⟩, ⟨"outer.from"⟩] = some scope ∧
        (recentDays.scopes {}).get? n.key = some scope := by
  have distinct : recentDays.Distinct := by decide
  obtain ⟨n, found⟩ : ∃ n, recentDays.nodeAt [⟨"query"⟩, ⟨"outer"⟩, ⟨"outer.from"⟩] = some n :=
    Option.isSome_iff_exists.1 (by decide)
  obtain ⟨scope, hs, hg⟩ := ((scope_passes_agree recentDays {}).1 distinct).2 _ n found
  exact ⟨distinct, n, scope, found, hs, hg⟩

end Node

end QueryTree
