import QueryTree.Proofs.ScopePasses
import QueryTree.Proofs.Validity

/-! What the violations of a tree count. Those that break the rule of a tag are those of
the nodes that break it, one for each, and those that repeat a key name every use of
the key but one. The scopes of a tree are filed under each key once, so the repeated
keys and the filed ones make up the keys of all nodes. -/

namespace QueryTree

/-- The tag whose rule is broken, if it is not a matter of keys. -/
def Violation.rule? : Violation → Option Tag
  | duplicateKey _ => none
  | query _ => some .query
  | select _ => some .select
  | fromClause _ => some .fromClause
  | column _ => some .column
  | join _ => some .join
  | joinOn _ => some .joinOn

namespace Node

variable {n : Node}

/-! ## Rules -/

/-- A broken rule is that of the node's own tag, and names the node. -/
theorem brokenRule?_eq_some {v : Violation} (h : n.brokenRule? = some v) :
    v.rule? = some n.tag ∧ v.key = n.key := by
  have fails {p : Prop} [Decidable p] {w : Violation}
      (h : (if p then none else some w) = some v) : w = v := by
    split at h
    · cases h
    · exact Option.some.inj h
  unfold brokenRule? at h
  cases tag : n.tag with
  | query | select | fromClause | column | join | joinOn =>
    rw [tag] at h
    obtain rfl := fails h
    exact ⟨rfl, rfl⟩
  | _ =>
    rw [tag] at h
    cases h

/-- The nodes that break the rule of their tag, in pre-order. -/
def offenders (root : Node) : List Node :=
  root.preorder.filter fun n => ¬ n.tag.Admits n.childTags

/-- The violations of a list of nodes that break the rules of tags. -/
theorem ruled_violationsAfter (seen : List Key) (ns : List Node) :
    ((violationsAfter seen ns).filter (·.rule?.isSome)).map (fun v => (v.rule?, v.key)) =
      (ns.filter fun n => ¬ n.tag.Admits n.childTags).map fun n => (some n.tag, n.key) := by
  induction ns generalizing seen with
  | nil => rfl
  | cons n ns ih =>
    have repeated : (if n.key ∈ seen then [Violation.duplicateKey n.key] else []).filter
        (·.rule?.isSome) = [] := by
      split <;> rfl
    rw [violationsAfter, List.filter_append, List.filter_append, repeated, List.nil_append,
      List.map_append, ih]
    cases broken : n.brokenRule? with
    | none =>
      have admitted := brokenRule?_eq_none.1 broken
      simp [admitted]
    | some v =>
      have refused : ¬ n.tag.Admits n.childTags := by
        rw [← brokenRule?_eq_none, broken]
        exact Option.some_ne_none v
      obtain ⟨rule, key⟩ := brokenRule?_eq_some broken
      simp [refused, rule, key]

/-! ## Keys -/

/-- The keys that a list of violations reports as repeated. -/
def repeatedKeys (violations : List Violation) : List Key :=
  (violations.filter (·.rule?.isNone)).map (·.key)

theorem count_repeatedKeys (violations : List Violation) (key : Key) :
    (repeatedKeys violations).count key = violations.count (.duplicateKey key) := by
  rw [repeatedKeys, List.count_eq_countP, List.countP_map, List.countP_filter,
    List.count_eq_countP]
  refine List.countP_congr fun v _ => ?_
  cases v <;> simp [Violation.rule?, Violation.key]

theorem repeatedKeys_violationsAfter_cons (seen : List Key) (n : Node) (ns : List Node) :
    repeatedKeys (violationsAfter seen (n :: ns)) =
      (if n.key ∈ seen then [n.key] else []) ++
        repeatedKeys (violationsAfter (n.key :: seen) ns) := by
  have ruled : n.brokenRule?.toList.filter (·.rule?.isNone) = [] := by
    cases broken : n.brokenRule? with
    | none => rfl
    | some v => simp [(brokenRule?_eq_some broken).1]
  rw [repeatedKeys, violationsAfter, List.filter_append, List.filter_append, ruled, List.append_nil,
    List.map_append]
  split <;> rfl

/-- Repeated keys and keys that are met for the first time are all keys. -/
theorem repeatedKeys_perm (seen : List Key) (ns : List Node) :
    (repeatedKeys (violationsAfter seen ns) ++
      ((ns.map (·.key)).filter (· ∉ seen)).eraseDups).Perm (ns.map (·.key)) := by
  induction ns generalizing seen with
  | nil => exact .nil
  | cons n ns ih =>
    have rest := ih (n.key :: seen)
    rw [repeatedKeys_violationsAfter_cons, List.map_cons]
    -- A key that has been seen is reported; one that has not is filed, and seen from here on.
    by_cases again : n.key ∈ seen
    · have passed : (ns.map (·.key)).filter (· ∉ n.key :: seen) =
          (ns.map (·.key)).filter (· ∉ seen) := by
        refine List.filter_congr fun key _ => ?_
        have known : key ∈ n.key :: seen ↔ key ∈ seen :=
          ⟨fun h => (List.mem_cons.1 h).elim (fun e => e ▸ again) id, List.mem_cons_of_mem _⟩
        rw [decide_not, decide_not, decide_eq_decide.2 known]
      rw [passed] at rest
      rw [if_pos again, List.filter_cons_of_neg (by simpa using again)]
      exact rest.cons n.key
    · have later : ((ns.map (·.key)).filter (· ∉ seen)).filter (fun key => !key == n.key) =
          (ns.map (·.key)).filter (· ∉ n.key :: seen) := by
        rw [List.filter_filter]
        refine List.filter_congr fun key _ => ?_
        by_cases same : key = n.key <;> simp [same]
      rw [if_neg again, List.filter_cons_of_pos (by simpa using again), List.eraseDups_cons, later]
      exact List.perm_middle.trans (rest.cons n.key)

/-- The keys that are reported as repeated and those that scopes are filed under make up
the keys of all nodes. -/
theorem repeatedKeys_append_keys_scopes (root : Node) (base : Scope) :
    (repeatedKeys root.violations ++ (root.scopes base).keys).Perm root.keys := by
  have whole := repeatedKeys_perm [] root.preorder
  rwa [List.filter_eq_self.2 (by simp), ← keys, ← keys_scopes root base] at whole

/-- A tree breaks no rule exactly when its keys are distinct and every node has the
children that its tag admits. Otherwise each key is reported as repeated once less
than it is used, and each node that breaks the rule of its tag is reported once, with
its own key. Together with the scopes of the tree, the repeated keys count its nodes. -/
theorem violations_counted (root : Node) :
    (root.violations = [] ↔ root.Distinct ∧ root.Conforms Tag.Admits) ∧
    (∀ key, root.violations.count (.duplicateKey key) = root.keys.count key - 1) ∧
    (root.violations.filter (·.rule?.isSome)).map (fun v => (v.rule?, v.key)) =
      root.offenders.map (fun n => (some n.tag, n.key)) ∧
    ∀ base, root.violations.countP (·.rule?.isNone) + (root.scopes base).size =
      root.preorder.length := by
  refine ⟨violations_eq_nil, fun key => ?_, ruled_violationsAfter [] root.preorder, fun base => ?_⟩
  · have counts := (repeatedKeys_append_keys_scopes root {}).count_eq key
    have filed : (root.scopes {}).keys.count key = if key ∈ root.keys then 1 else 0 := by
      have nodup : (root.scopes {}).keys.Nodup := (root.scopes {}).nodup
      rw [nodup.count]
      exact if_congr (by rw [keys_scopes, List.mem_eraseDups]) rfl rfl
    rw [List.count_append, count_repeatedKeys, filed] at counts
    by_cases used : key ∈ root.keys
    · rw [if_pos used] at counts
      omega
    · rw [if_neg used] at counts
      have unused := List.count_eq_zero_of_not_mem used
      omega
  · have lengths := (repeatedKeys_append_keys_scopes root base).length_eq
    rw [List.length_append, ← KeyMap.size_eq_length_keys, repeatedKeys, List.length_map,
      ← List.countP_eq_length_filter] at lengths
    rw [lengths, keys, List.length_map]

end Node

end QueryTree
