import QueryTree.Proofs.ScopePasses

/-! Scopes of trees that repeat keys. A position says by numbers which child to enter at
each step on the way down to a node, so every node has one of its own even where keys
are used again. The whole pass lists the keys by their first nodes in pre-order and
files under each key the scope of the last one, as it is passed down by position. -/

namespace QueryTree

namespace KeyMap

variable {α : Type}

/-- The entry that counts is the one that no other entry of the key comes after. -/
theorem get?_ofList_eq_some {entries : List (Key × α)} {key : Key} {value : α} :
    (ofList entries).get? key = some value ↔
      ∃ before after, entries = before ++ (key, value) :: after ∧
        ∀ entry ∈ after, entry.1 ≠ key := by
  rw [get?_ofList, List.lookup_eq_some_iff]
  constructor
  · intro h
    obtain ⟨later, earlier, split, none⟩ := h
    refine ⟨earlier.reverse, later.reverse, ?_, fun entry he same => ?_⟩
    · rw [← List.reverse_reverse entries, split]
      simp
    · have other := none entry (List.mem_reverse.1 he)
      simp [same] at other
  · intro h
    obtain ⟨before, after, rfl, none⟩ := h
    refine ⟨after.reverse, before.reverse, by simp, fun entry he => ?_⟩
    have other : key ≠ entry.1 := fun same => none entry (List.mem_reverse.1 he) same.symm
    simpa using other

end KeyMap

namespace Node

/-! ## Positions -/

mutual

/-- The positions of the node itself and of all nodes below it, in pre-order. -/
def positions : Node → List (List Nat)
  | ⟨_, _, _, none⟩ => [[]]
  | ⟨_, _, _, some kids⟩ => [] :: positionsAmong 0 kids

/-- The positions of the children that are numbered from `first` on, and of the nodes
below them. -/
def positionsAmong (first : Nat) : List Node → List (List Nat)
  | [] => []
  | n :: ns => n.positions.map (first :: ·) ++ positionsAmong (first + 1) ns

end

/-- The node at a position, with the scope that it has if `n` has the given one. -/
def entryAt : Scope → Node → List Nat → Option (Node × Scope)
  | scope, n, [] => some (n, scope)
  | scope, n, i :: position =>
    (n.scopedChildren scope)[i]?.bind fun (c, inner) => entryAt inner c position

theorem positionsAmong_eq_flatMap (first : Nat) (ns : List Node) :
    positionsAmong first ns = (ns.zipIdx first).flatMap fun (c, i) => c.positions.map (i :: ·) := by
  induction ns generalizing first with
  | nil => rfl
  | cons n ns ih => simp [positionsAmong, List.zipIdx_cons, ih]

theorem positions_eq (n : Node) :
    n.positions = [] :: n.children.zipIdx.flatMap fun (c, i) => c.positions.map (i :: ·) := by
  obtain ⟨_, _, _, _ | kids⟩ := n
  · rfl
  · rw [positions, positionsAmong_eq_flatMap]
    rfl

/-- Going to each position gives the nodes and scopes of the whole pass. -/
theorem map_entryAt_positions (n : Node) (scope : Scope) :
    n.positions.map (n.entryAt scope) = (n.scopedPreorder scope).map some := by
  induction n using children_induction generalizing scope with
  | step n ih =>
    -- The children are numbered as their scopes are, so each number leads to a child with
    -- the scope that the pass goes on with.
    have numbered : n.children.zipIdx =
        (n.scopedChildren scope).zipIdx.map fun (entry, i) => (entry.1, i) := by
      rw [← map_fst_scopedChildren scope n, List.zipIdx_map]
      rfl
    have below : ∀ numbered ∈ (n.scopedChildren scope).zipIdx,
        (numbered.1.1.positions.map (numbered.2 :: ·)).map (n.entryAt scope) =
          (numbered.1.1.scopedPreorder numbered.1.2).map some := by
      rintro ⟨⟨c, inner⟩, i⟩ mem
      have here : (n.scopedChildren scope)[i]? = some (c, inner) :=
        List.mk_mem_zipIdx_iff_getElem?.1 mem
      have child : c ∈ n.children := by
        rw [← map_fst_scopedChildren scope n]
        exact List.mem_map_of_mem (List.mem_of_getElem? here)
      rw [← ih c child inner, List.map_map]
      refine List.map_congr_left fun position _ => ?_
      rw [Function.comp_apply, entryAt, here]
      rfl
    rw [positions_eq, scopedPreorder_eq, List.map_cons, List.map_cons, numbered, List.flatMap_map,
      List.map_flatMap, List.flatMap_congr below, List.map_flatMap]
    conv_rhs => rw [← List.zipIdx_map_fst 0 (n.scopedChildren scope), List.flatMap_map]
    rfl

/-- The same, for one place in the pre-order. -/
theorem getElem?_scopedPreorder_eq_some {n : Node} {scope : Scope} {i : Nat}
    {entry : Node × Scope} : (n.scopedPreorder scope)[i]? = some entry ↔
      ∃ position, n.positions[i]? = some position ∧ n.entryAt scope position = some entry := by
  have same := congrArg (·[i]?) (map_entryAt_positions n scope)
  simp only [List.getElem?_map] at same
  rw [← Option.map_eq_some_iff, same]
  simp

/-- Of the nodes with a key the last one counts. -/
theorem get?_scopes_eq_some {root : Node} {base scope : Scope} {key : Key} :
    (root.scopes base).get? key = some scope ↔
      ∃ before n after, root.scopedPreorder base = before ++ (n, scope) :: after ∧ n.key = key ∧
        ∀ entry ∈ after, entry.1.key ≠ key := by
  rw [scopes, KeyMap.get?_ofList_eq_some]
  constructor
  · intro h
    obtain ⟨_, _, filed, last⟩ := h
    obtain ⟨before, _, split, rfl, rest⟩ := List.map_eq_append_iff.1 filed
    obtain ⟨⟨n, inner⟩, after, rfl, here, rfl⟩ := List.map_eq_cons_iff.1 rest
    obtain ⟨rfl, rfl⟩ := Prod.mk.inj here
    exact ⟨before, n, after, split, rfl, fun entry he => last _ (List.mem_map_of_mem he)⟩
  · intro h
    obtain ⟨before, n, after, split, rfl, last⟩ := h
    refine ⟨_, _, by rw [split, List.map_append, List.map_cons], fun filed hf => ?_⟩
    obtain ⟨entry, he, rfl⟩ := List.mem_map.1 hf
    exact last entry he

/-- The keys are listed by their first nodes in pre-order. The scope that is filed under a
key is that of the last node in pre-order that has the key, as it is passed down to that
node from child to child. -/
theorem scopes_of_last_positions (root : Node) (base : Scope) :
    (root.scopes base).keys = root.keys.eraseDups ∧
    root.positions.map (fun position => (root.entryAt base position).map Prod.fst) =
      root.preorder.map some ∧
    ∀ key scope, (root.scopes base).get? key = some scope ↔
      ∃ before n after position, root.preorder = before ++ n :: after ∧ n.key = key ∧
        (∀ m ∈ after, m.key ≠ key) ∧ root.positions[before.length]? = some position ∧
        root.entryAt base position = some (n, scope) := by
  have nodes := map_fst_scopedPreorder root base
  refine ⟨keys_scopes root base, ?_, fun key scope => ?_⟩
  · have entries := congrArg (List.map (Option.map Prod.fst)) (map_entryAt_positions root base)
    rw [List.map_map, List.map_map] at entries
    rw [← nodes, List.map_map]
    exact entries
  · rw [get?_scopes_eq_some]
    constructor
    · intro h
      obtain ⟨before, n, after, split, key, last⟩ := h
      have place : (root.scopedPreorder base)[before.length]? = some (n, scope) := by simp [split]
      obtain ⟨position, listed, found⟩ := getElem?_scopedPreorder_eq_some.1 place
      refine ⟨before.map Prod.fst, n, after.map Prod.fst, position, ?_, key, ?_, ?_, found⟩
      · rw [← nodes, split, List.map_append, List.map_cons]
      · rwa [List.forall_mem_map]
      · rwa [List.length_map]
    · intro h
      obtain ⟨_, n, _, position, split, key, last, listed, found⟩ := h
      have place := getElem?_scopedPreorder_eq_some.2 ⟨position, listed, found⟩
      rw [← nodes] at split
      obtain ⟨before, _, whole, rfl, rest⟩ := List.map_eq_append_iff.1 split
      obtain ⟨entry, after, rfl, -, rfl⟩ := List.map_eq_cons_iff.1 rest
      -- The position leads to the node and the scope at that place of the pre-order.
      obtain rfl : entry = (n, scope) := by simpa [whole] using place
      exact ⟨before, n, after, whole, key, fun later hl => last later.1 (List.mem_map_of_mem hl)⟩

end Node

end QueryTree
