import QueryTree.Gesture
import QueryTree.Proofs.FreshKeys
import Mathlib.Data.List.Flatten

/-! What an editor changes at one node. A list grows by a default part or loses
one, an alias comes or goes, or one field of the payload is rewritten. The node
that takes the place of the target has its tag, uses keys of the target and
newly drawn ones only, and breaks no rule if the target broke none. -/

namespace QueryTree

/-- The parts that lists of a query are made of. -/
inductive Part where
  | column
  | join
  | cte
deriving DecidableEq

namespace Part

def tag : Part → Tag
  | column => .column
  | join => .join
  | cte => .cte

/-- The tag of the node that holds such parts. -/
def home : Part → Tag
  | column => .columns
  | join => .fromClause
  | cte => .ctes

/-- What is added when a list grows. -/
def sketch : Part → Sketch
  | column => .column
  | join => .join
  | cte => .cte

theorem tag_sketch (part : Part) : part.sketch.tag = part.tag := by cases part <;> rfl

end Part

/-- A change at one node. -/
inductive Change where
  | add (part : Part) (place : Place)
  | remove (key : Key)
  | toggleAlias
  | edit (change : PayloadEdit)

namespace Change

/-- The nodes that a change is meant for: parts come and go where they are at
home, columns and tables have aliases, and aliases have texts. All other fields
can be written on any node. -/
def Suits (target : Node) : Change → Prop
  | add part _ => target.tag = part.home
  | remove key =>
    ∃ part : Part, target.tag = part.home ∧ ∃ c ∈ target.children, c.tag = part.tag ∧ c.key = key
  | toggleAlias => target.tag = .column ∨ target.tag = .table
  | edit (.setAlias _) => target.tag = .aliasName
  | edit .toggleRaw | edit (.setRawSql _) | edit (.select _) | edit (.setJoinKind _) => True

/-- The gesture that makes the change; a part that is added is built first. -/
def gesture (kind : KeyKind) : Change → Fresh Gesture
  | add part place => return .addChild (← part.sketch.build kind) place
  | remove key => return .removeChild key
  | toggleAlias => return .toggleAlias
  | edit change => return .edit change

/-- The node that takes the place of the target. -/
def revise (kind : KeyKind) (target : Node) (change : Change) : Fresh Node := do
  (← change.gesture kind).revise kind target

/-- The request that makes the change at a path. -/
def request (kind : KeyKind) (target : Node) (path : List Key) (change : Change) :
    Fresh Request := do
  (← change.gesture kind).request kind target path

theorem request_eq (kind : KeyKind) (target : Node) (path : List Key) (change : Change)
    (supply : Supply) :
    change.request kind target path supply =
      ({ path, replacement := (change.revise kind target supply).1 },
        (change.revise kind target supply).2) := by
  cases change <;> rfl

/-- An alias that is there is dropped, and otherwise one without text comes last. -/
theorem revise_toggleAlias (kind : KeyKind) (target : Node) (supply : Supply) :
    toggleAlias.revise kind target supply =
      match target.childOfTag .aliasName with
      | some child => (target.removeChild child.key, supply)
      | none =>
        let name := (Sketch.leaf .aliasName).build kind supply
        (target.addChild name.1 .back, name.2) := by
  have made : toggleAlias.revise kind target supply =
      Gesture.toggleAlias.revise kind target supply := rfl
  rw [made, Gesture.revise]
  cases target.childOfTag .aliasName <;> rfl

end Change

namespace Node

/-! ## Children that come and go -/

theorem mem_children_addChild {n new c : Node} {place : Place} :
    c ∈ (n.addChild new place).children ↔ c = new ∨ c ∈ n.children := by
  cases place <;> simp [addChild, or_comm]

theorem children_addChild_perm (n new : Node) (place : Place) :
    (n.addChild new place).children.Perm (new :: n.children) := by
  cases place with
  | front => exact .rfl
  | back => exact List.perm_append_singleton _ _

theorem tag_addChild (n new : Node) (place : Place) : (n.addChild new place).tag = n.tag := by
  cases place <;> rfl

theorem key_addChild (n new : Node) (place : Place) : (n.addChild new place).key = n.key := by
  cases place <;> rfl

theorem keys_addChild_perm (n new : Node) (place : Place) :
    (n.addChild new place).keys.Perm (new.keys ++ n.keys) := by
  rw [keys_eq, key_addChild, keys_eq n]
  refine List.Perm.trans (.cons _ ((children_addChild_perm n new place).flatMap_right _)) ?_
  rw [List.flatMap_cons]
  exact List.perm_middle.symm

theorem mem_keys_addChild {n new : Node} {place : Place} {key : Key} :
    key ∈ (n.addChild new place).keys ↔ key ∈ new.keys ∨ key ∈ n.keys := by
  rw [(keys_addChild_perm n new place).mem_iff, List.mem_append]

theorem Distinct.addChild {n new : Node} (hn : n.Distinct) (hnew : new.Distinct)
    (apart : ∀ key ∈ new.keys, key ∉ n.keys) (place : Place) :
    (n.addChild new place).Distinct := by
  unfold Distinct
  rw [(keys_addChild_perm n new place).nodup_iff, List.nodup_append]
  refine ⟨hnew, hn, ?_⟩
  rintro key hkey _ hold rfl
  exact apart key hkey hold

theorem count_childTags_addChild (n new : Node) (place : Place) (tag : Tag) :
    (n.addChild new place).childTags.count tag =
      n.childTags.count tag + if new.tag = tag then 1 else 0 := by
  rw [childTags, ((children_addChild_perm n new place).map _).count_eq, List.map_cons,
    List.count_cons]
  simp [childTags]

theorem keys_removeChild_sublist (n : Node) (key : Key) :
    (n.removeChild key).keys.Sublist n.keys := by
  rw [keys_eq, keys_eq n, children_removeChild]
  exact .cons_cons _ (List.filter_sublist.flatMap _)

theorem childTags_removeChild_sublist (n : Node) (key : Key) :
    (n.removeChild key).childTags.Sublist n.childTags :=
  List.filter_sublist.map _

/-- Removing a child by its key takes no child of another tag along. -/
theorem Distinct.count_childTags_removeChild {n c : Node} (hn : n.Distinct)
    (hc : c ∈ n.children) {tag : Tag} (h : c.tag ≠ tag) :
    (n.removeChild c.key).childTags.count tag = n.childTags.count tag := by
  rw [childTags, childTags, children_removeChild, List.count_eq_countP, List.count_eq_countP,
    List.countP_map, List.countP_map, List.countP_filter]
  refine List.countP_congr fun d hd => ?_
  simp only [Function.comp_apply, beq_iff_eq, decide_eq_true_eq, Bool.and_eq_true]
  refine ⟨And.left, fun ht => ⟨ht, fun hk => h ?_⟩⟩
  rw [← ht, hn.eq_of_key_eq (child_mem_preorder hd) (child_mem_preorder hc) hk]

theorem keys_withData (n : Node) (data : Payload) : (n.withData data).keys = n.keys := by
  rw [keys_eq, keys_eq n]
  rfl

end Node

/-! ## Revisions -/

/-- Under a parent of the first tag, children of the second may come and go. -/
def Loose (parent child : Tag) : Prop :=
  (parent, child) ∈ [(Tag.columns, Tag.column), (.fromClause, .join), (.ctes, .cte),
    (.column, .aliasName), (.table, .aliasName)]

instance (parent child : Tag) : Decidable (Loose parent child) :=
  inferInstanceAs (Decidable (_ ∈ _))

/-- What a change grows by. -/
def grownSketches : List Sketch := [.column, .join, .cte, .leaf .aliasName]

/-- The node that may take the place of `old` once a number of keys have been drawn. -/
inductive Revision (kind : KeyKind) (supply : Supply) (old : Node) : Nat → Node → Prop
  | grow {sketch : Sketch} {place : Place} (grown : sketch ∈ grownSketches)
      (loose : Loose old.tag sketch.tag)
      (free : sketch.tag = .aliasName → old.childTags.count .aliasName = 0) :
      Revision kind supply old sketch.size (old.addChild (sketch.build kind supply).1 place)
  | drop {c : Node} (mem : c ∈ old.children) (loose : Loose old.tag c.tag) :
      Revision kind supply old 0 (old.removeChild c.key)
  | rewrite {data : Payload} : Revision kind supply old 0 (old.withData data)

namespace Part

theorem loose (part : Part) : Loose part.home part.tag := by cases part <;> decide

theorem sketch_mem (part : Part) : part.sketch ∈ grownSketches := by
  cases part <;> simp [sketch, grownSketches]

end Part

theorem count_aliasName_eq_zero {n : Node} (h : n.childOfTag .aliasName = none) :
    n.childTags.count .aliasName = 0 := by
  rw [List.count_eq_zero, Node.childTags, List.mem_map]
  intro h
  obtain ⟨c, hc, ht⟩ := h
  have hne := List.find?_eq_none.1 h c hc
  simp [ht] at hne

/-- What each change makes of a node it is meant for, and the keys that it draws. -/
theorem Change.revision {change : Change} {target : Node} (h : change.Suits target)
    (kind : KeyKind) (supply : Supply) :
    ∃ count, Revision kind supply target count (change.revise kind target supply).1 ∧
      (change.revise kind target supply).2 = supply.skip kind count := by
  cases change with
  | add part place =>
    refine ⟨part.sketch.size, .grow part.sketch_mem ?_ ?_, Sketch.build_supply kind _ supply⟩
    · rw [h, part.tag_sketch]
      exact part.loose
    · rw [part.tag_sketch]
      intro ht
      cases part <;> cases ht
  | remove key =>
    obtain ⟨part, home, c, hc, ht, rfl⟩ := h
    exact ⟨0, .drop hc (by rw [home, ht]; exact part.loose), (supply.skip_zero kind).symm⟩
  | toggleAlias =>
    have loose : Loose target.tag .aliasName := by
      rcases h with ht | ht
      all_goals rw [ht]; decide
    rw [revise_toggleAlias]
    cases found : target.childOfTag .aliasName with
    | some child =>
      have tag : child.tag = .aliasName := by simpa using List.find?_some found
      exact ⟨0, .drop (List.mem_of_find?_eq_some found) (tag ▸ loose), (supply.skip_zero kind).symm⟩
    | none =>
      have grown : Sketch.leaf .aliasName ∈ grownSketches := by simp [grownSketches]
      dsimp only
      exact ⟨(Sketch.leaf .aliasName).size,
        .grow grown loose fun _ => count_aliasName_eq_zero found, Sketch.build_supply kind _ supply⟩
  | edit change => exact ⟨0, .rewrite, (supply.skip_zero kind).symm⟩

namespace Revision

variable {kind : KeyKind} {supply : Supply} {old new : Node} {count : Nat}

theorem tag_eq (h : Revision kind supply old count new) : new.tag = old.tag := by
  cases h with
  | grow => exact Node.tag_addChild _ _ _
  | drop => rfl
  | rewrite => rfl

/-- The new node uses old keys and the ones just drawn. -/
theorem keys (h : Revision kind supply old count new) {key : Key} (hk : key ∈ new.keys) :
    key ∈ old.keys ∨ key ∈ supply.draws kind count := by
  cases h with
  | grow =>
    rw [Node.mem_keys_addChild, Sketch.mem_keys_build] at hk
    exact hk.symm
  | drop => exact .inl ((Node.keys_removeChild_sublist _ _).subset hk)
  | rewrite =>
    rw [Node.keys_withData] at hk
    exact .inl hk

theorem distinct (h : Revision kind supply old count new) (hold : old.Distinct)
    (apart : (supply.draws kind count).Nodup)
    (unused : ∀ key ∈ old.keys, key ∉ supply.draws kind count) : new.Distinct := by
  cases h with
  | @grow sketch place =>
    refine hold.addChild (Sketch.distinct_build_iff.2 apart) ?_ place
    intro key drawn hkey
    exact unused key hkey (Sketch.mem_keys_build.1 drawn)
  | drop => exact hold.sublist (Node.keys_removeChild_sublist _ _)
  | rewrite =>
    unfold Node.Distinct
    rwa [Node.keys_withData]

/-- A revision conforms to a rule if the sketches do and the node itself does. -/
theorem conforms_of {rule : Tag → List Tag → Prop} (h : Revision kind supply old count new)
    (hold : old.Conforms rule) (hsketch : ∀ sketch ∈ grownSketches, sketch.Conforms rule)
    (here : rule new.tag new.childTags) : new.Conforms rule := by
  refine Node.conforms_iff.2 ⟨here, ?_⟩
  have kept := (Node.conforms_iff.1 hold).2
  cases h with
  | @grow sketch place grown =>
    intro c hc
    rcases Node.mem_children_addChild.1 hc with rfl | hc
    · exact Sketch.build_conforms kind sketch supply (hsketch sketch grown)
    · exact kept c hc
  | drop =>
    intro c hc
    exact kept c (List.mem_of_mem_filter hc)
  | rewrite => exact kept

/-- Children that come and go are none that a rule asks for. -/
theorem admits (h : Revision kind supply old count new) (hold : old.Distinct)
    (here : old.tag.Admits old.childTags) : new.tag.Admits new.childTags := by
  rw [h.tag_eq]
  cases h with
  | @grow sketch place grown loose free =>
    have counts := Node.count_childTags_addChild old (sketch.build kind supply).1 place
    rw [Sketch.tag_build] at counts
    generalize old.tag = parent at loose here ⊢
    generalize sketch.tag = child at loose free counts
    simp only [Loose, List.mem_cons, Prod.mk.injEq, List.not_mem_nil, or_false] at loose
    rcases loose with ⟨rfl, rfl⟩ | ⟨rfl, rfl⟩ | ⟨rfl, rfl⟩ | ⟨rfl, rfl⟩ | ⟨rfl, rfl⟩
    · trivial
    · simpa [Tag.Admits, counts] using here
    · trivial
    · simpa [Tag.Admits, counts, free rfl] using here.1
    · trivial
  | @drop c mem loose =>
    have counts {tag : Tag} (hne : c.tag ≠ tag) := hold.count_childTags_removeChild mem hne
    have fewer := (Node.childTags_removeChild_sublist old c.key).count_le .aliasName
    generalize old.tag = parent at loose here ⊢
    simp only [Loose, List.mem_cons, Prod.mk.injEq, List.not_mem_nil, or_false] at loose
    rcases loose with ⟨rfl, ht⟩ | ⟨rfl, ht⟩ | ⟨rfl, ht⟩ | ⟨rfl, ht⟩ | ⟨rfl, ht⟩
    · trivial
    · exact (counts (by simp [ht])).trans here
    · trivial
    · exact ⟨(counts (by simp [ht])).trans here.1, Nat.le_trans fewer here.2⟩
    · trivial
  | rewrite => exact here

theorem grown_conforms : ∀ sketch ∈ grownSketches, sketch.Conforms Tag.Admits := by
  have defaults : grownSketches ⊆ Sketch.defaults := by simp [grownSketches, Sketch.defaults]
  exact fun sketch grown => Sketch.defaults_conform sketch (defaults grown)

/-- A revision breaks no rule if the node broke none. -/
theorem conforms (h : Revision kind supply old count new) (hdistinct : old.Distinct)
    (hold : old.Conforms Tag.Admits) : new.Conforms Tag.Admits :=
  h.conforms_of hold grown_conforms (h.admits hdistinct (Node.conforms_iff.1 hold).1)

end Revision

end QueryTree
