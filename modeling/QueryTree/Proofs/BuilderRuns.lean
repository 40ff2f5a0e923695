import QueryTree.Proofs.FreshKeys
import Mathlib.Data.List.Forall2

/-! Runs of a builder. Default constructs are built one after another from one supply
of numbered keys. The numbers are used up without a gap, so no two nodes of any of the
trees share a key, and every construct but a bare node obeys the rules of shape. -/

namespace QueryTree

theorem Key.text_injective : Function.Injective Key.text := by
  intro a b same
  cases a
  cases b
  exact congrArg Key.mk same

namespace Supply

/-- The numbered keys that come next, with their texts. -/
theorem texts_draws_sequential (supply : Supply) (count : Nat) :
    (supply.draws .sequential count).map (·.text) =
      (List.range' (supply.numbered + 1) count).map fun i => "n" ++ toString i := by
  rw [draws, List.range'_eq_map_range, List.map_map, List.map_map]
  rfl

end Supply

namespace Sketch

theorem data_build (kind : KeyKind) (sketch : Sketch) (supply : Supply) :
    (build kind sketch supply).1.data = sketch.data := by
  obtain ⟨_, _, _ | _⟩ := sketch <;> rfl

theorem allConform_iff {rule : Tag → List Tag → Prop} {parts : List Sketch} :
    AllConform rule parts ↔ ∀ part ∈ parts, part.Conforms rule := by
  induction parts with
  | nil => simp [AllConform]
  | cons part parts ih => simp [AllConform, ih]

theorem map_data_buildAll (kind : KeyKind) (parts : List Sketch) (supply : Supply) :
    (buildAll kind parts supply).1.map (·.data) = parts.map (·.data) := by
  induction parts generalizing supply with
  | nil => rfl
  | cons part parts ih => exact congrArg₂ List.cons (data_build kind part supply) (ih _)

/-- As many nodes are built as the sketches have. -/
theorem length_preorder_buildAll (kind : KeyKind) (parts : List Sketch) (supply : Supply) :
    ((buildAll kind parts supply).1.flatMap Node.preorder).length = sizeAll parts := by
  have drawn := congrArg List.length (buildAll_keys kind parts supply).1
  have same := (List.Perm.flatMap_left (buildAll kind parts supply).1
    fun n _ => n.postorder_perm_preorder).length_eq
  rw [← List.map_flatMap, List.length_map, same] at drawn
  simpa [Supply.draws] using drawn

/-- Numbered keys do not repeat, so what is built breaks no rule if its sketch keeps the
rules of its tags. -/
theorem violations_build_sequential {sketch : Sketch} (h : sketch.Conforms Tag.Admits)
    (supply : Supply) : (build .sequential sketch supply).1.violations = [] :=
  Node.violations_eq_nil.2
    ⟨distinct_build_iff.2 (supply.nodup_draws_sequential _),
      build_conforms .sequential sketch supply h⟩

end Sketch

/-! ## Calls -/

/-- What a builder can be asked for. -/
inductive Construct
  | query
  | select
  | column
  | join
  | cte
  | aliasName
  | leaf (tag : Tag)
  | sourceList (schema : Schema)

namespace Construct

def sketch : Construct → Sketch
  | query => .query
  | select => .select
  | column => .column
  | join => .join
  | cte => .cte
  | aliasName => .leaf .aliasName
  | leaf tag => .leaf tag
  | sourceList schema => .sourceList schema

/-- Answers one call after another. -/
def buildEach (kind : KeyKind) (calls : List Construct) : Fresh (List Node) :=
  calls.mapM fun call => call.sketch.build kind

/-- What a tree has to be that answers a call: valid, unless the call is for a bare node,
and for a schema a list of its tables, in order, with their names and columns. -/
def AnsweredBy : Construct → Node → Prop
  | leaf _, _ => True
  | sourceList schema, tree => tree.violations = [] ∧
      tree.children.map (fun child => (child.data.aliasText, child.data.columnNames)) =
        schema.tables.map fun table => (some table.name, some (table.columns.map (·.name)))
  | _, tree => tree.violations = []

theorem buildEach_eq_buildAll (kind : KeyKind) (calls : List Construct) :
    buildEach kind calls = Sketch.buildAll kind (calls.map sketch) := by
  unfold buildEach
  induction calls with
  | nil => rfl
  | cons call calls ih =>
    rw [List.mapM_cons, ih]
    rfl

theorem sketch_conforms {call : Construct} (h : ∀ tag, call ≠ leaf tag) :
    call.sketch.Conforms Tag.Admits := by
  cases call with
  | leaf tag => exact absurd rfl (h tag)
  | sourceList schema =>
    refine ⟨trivial, Sketch.allConform_iff.2 fun part hpart => ?_⟩
    obtain ⟨table, -, rfl⟩ := List.mem_map.1 hpart
    exact trivial
  | _ => exact Sketch.defaults_conform _ (by simp [sketch, Sketch.defaults])

theorem answeredBy_build (call : Construct) (supply : Supply) :
    call.AnsweredBy (call.sketch.build .sequential supply).1 := by
  have valid (h : ∀ tag, call ≠ leaf tag) :=
    Sketch.violations_build_sequential (sketch_conforms h) supply
  cases call with
  | leaf tag => exact trivial
  | sourceList schema =>
    refine ⟨valid (by simp), ?_⟩
    have children : ((sourceList schema).sketch.build .sequential supply).1.children =
        (Sketch.buildAll .sequential (schema.tables.map Sketch.sourceTable) supply).1 := rfl
    have listed := congrArg (List.map fun data => (data.aliasText, data.columnNames))
      (Sketch.map_data_buildAll .sequential (schema.tables.map Sketch.sourceTable) supply)
    rw [List.map_map, List.map_map, List.map_map] at listed
    rw [children]
    exact listed
  | _ => exact valid (by simp)

theorem answeredBy_buildAll (calls : List Construct) (supply : Supply) :
    List.Forall₂ AnsweredBy calls (Sketch.buildAll .sequential (calls.map sketch) supply).1 := by
  induction calls generalizing supply with
  | nil => exact .nil
  | cons call calls ih => exact .cons (answeredBy_build call supply) (ih _)

/-- A builder that has handed out a number of keys goes on with the next number and leaves
none out: the keys of all its trees, each tree in post-order, are numbered in a row. So no
two nodes share a key, and the counter has gone up by the number of nodes. Every tree
answers its call. -/
theorem buildEach_numbers_in_a_row (calls : List Construct) (supply : Supply) :
    let trees := (buildEach .sequential calls supply).1
    let total := (trees.flatMap Node.preorder).length
    (trees.flatMap Node.postorder).map (·.key.text) =
      (List.range' (supply.numbered + 1) total).map (fun i => "n" ++ toString i) ∧
    ((trees.flatMap Node.preorder).map (·.key.text)).Nodup ∧
    (buildEach .sequential calls supply).2 =
      { supply with numbered := supply.numbered + total } ∧
    List.Forall₂ AnsweredBy calls trees := by
  rw [buildEach_eq_buildAll]
  intro trees total
  have counted : total = Sketch.sizeAll (calls.map sketch) :=
    Sketch.length_preorder_buildAll .sequential _ supply
  obtain ⟨drawn, rest⟩ := Sketch.buildAll_keys .sequential (calls.map sketch) supply
  have keys : (trees.flatMap Node.postorder).map (·.key) = supply.draws .sequential total := by
    rw [counted, ← drawn, List.map_flatMap]
  have texts : (trees.flatMap Node.postorder).map (·.key.text) =
      (supply.draws .sequential total).map (·.text) := by
    rw [← keys, List.map_map]
    rfl
  refine ⟨?_, ?_, ?_, answeredBy_buildAll calls supply⟩
  · rw [texts, supply.texts_draws_sequential]
  · -- Keys are drawn in post-order; which order the nodes are listed in is no matter here.
    have either : (trees.flatMap Node.postorder).Perm (trees.flatMap Node.preorder) :=
      .flatMap_left trees fun n _ => n.postorder_perm_preorder
    have nodup := supply.nodup_draws_sequential total
    rw [← (either.map _).nodup_iff, texts]
    exact nodup.map Key.text_injective
  · rw [rest, counted]
    rfl

/-- Three calls of a builder that has handed out seven keys, and the keys of the trees. -/
example :
    let schema : Schema := { tables := [{ key := ⟨"t"⟩, name := "days", columns := [] }] }
    let trees := (buildEach .sequential [.column, .leaf .query, .sourceList schema]
      { numbered := 7, random := id }).1
    trees.map (·.postorder.map (·.key.text)) = [["n8", "n9"], ["n10"], ["n11", "n12"]] := by
  decide

end Construct

end QueryTree
