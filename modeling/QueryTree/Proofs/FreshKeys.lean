import QueryTree.Proofs.Validity
import QueryTree.Sketch
import Mathlib.Data.List.Flatten
import Mathlib.Data.List.Perm.Basic
import Mathlib.Data.List.Nodup

/-! Fresh keys. A supply is an endless row of keys of either kind; whatever is
built takes the next ones, in post-order. Sequential keys never come twice, and
random ones not as long as their numbers do not repeat. So a tree without any of
the next keys shares none with what is built of them. -/

namespace QueryTree

/-! ## The row of upcoming keys -/

namespace Key

theorem sequential_injective {i j : Nat} (h : sequential i = sequential j) : i = j := by
  have digits : Nat.toDigits 10 i = Nat.toDigits 10 j := by
    have text : i.repr = j.repr := by simpa [sequential] using h
    rw [← Nat.toList_repr, text, Nat.toList_repr]
  have hread := congrArg (Nat.ofDigitChars 10 · 0) digits
  rwa [Nat.ofDigitChars_ten_toDigits, Nat.ofDigitChars_ten_toDigits] at hread

/-- Two numbers make one random key if they agree in the 122 bits that are used. -/
theorem uuid_eq_iff {a b : Nat} : uuid a = uuid b ↔ a % (1 <<< 122) = b % (1 <<< 122) := by
  -- The three runs of digits hold the bits from 74, from 62 and from 0 on.
  have bits : a % (1 <<< 122) = b % (1 <<< 122) ↔
      (a >>> 74) % (1 <<< (4 * 12)) = (b >>> 74) % (1 <<< (4 * 12)) ∧
      (a >>> 62) % (1 <<< (4 * 3)) = (b >>> 62) % (1 <<< (4 * 3)) ∧
      ((1 <<< 63) + a % (1 <<< 62)) % (1 <<< (4 * 16)) =
        ((1 <<< 63) + b % (1 <<< 62)) % (1 <<< (4 * 16)) := by
    simp only [Nat.shiftRight_eq_div_pow, Nat.shiftLeft_eq]
    omega
  rw [bits, ← Text.Hex.fixed_eq_iff, ← Text.Hex.fixed_eq_iff, ← Text.Hex.fixed_eq_iff]
  constructor
  · intro h
    have text := String.ofList_injective (Key.mk.inj h)
    -- The groups are as long in one text as in the other, so they are the same ones.
    have groups := List.eq_iff_flatten_eq.2 ⟨text, by simp⟩
    simp only [List.intersperse, List.cons.injEq, true_and, and_true] at groups
    obtain ⟨high, high', middle, low, low'⟩ := groups
    refine ⟨?_, middle, ?_⟩
    · rw [← List.take_append_drop 8 (Text.Hex.fixed 12 _), high, high', List.take_append_drop]
    · rw [← List.take_append_drop 4 (Text.Hex.fixed 16 _), low, low', List.take_append_drop]
  · intro h
    obtain ⟨high, middle, low⟩ := h
    simp only [uuid, high, middle, low]

end Key

namespace Supply

/-- The key that is drawn after `i` others. -/
def upcoming (supply : Supply) : KeyKind → Nat → Key
  | .sequential, i => Key.sequential (supply.numbered + 1 + i)
  | .uuid, i => Key.uuid (supply.random (supply.drawn + i))

/-- The supply after `count` keys of one kind have been drawn. -/
def skip (supply : Supply) : KeyKind → Nat → Supply
  | .sequential, count => { supply with numbered := supply.numbered + count }
  | .uuid, count => { supply with drawn := supply.drawn + count }

/-- The next `count` keys. -/
def draws (supply : Supply) (kind : KeyKind) (count : Nat) : List Key :=
  (List.range count).map (supply.upcoming kind)

/-- What the next `count` random keys are made of. -/
def randomBits (supply : Supply) (count : Nat) : List Nat :=
  (List.range count).map fun i => supply.random (supply.drawn + i) % (1 <<< 122)

variable {supply : Supply} {kind : KeyKind} {a b count : Nat}

theorem skip_zero (supply : Supply) (kind : KeyKind) : supply.skip kind 0 = supply := by
  cases kind <;> rfl

theorem skip_skip (supply : Supply) (kind : KeyKind) (a b : Nat) :
    (supply.skip kind a).skip kind b = supply.skip kind (a + b) := by
  cases kind <;> simp [skip, Nat.add_assoc]

theorem upcoming_skip (supply : Supply) (kind : KeyKind) (a i : Nat) :
    (supply.skip kind a).upcoming kind i = supply.upcoming kind (a + i) := by
  cases kind with
  | uuid => simp [skip, upcoming, Nat.add_assoc]
  | sequential => simp [skip, upcoming, Nat.add_assoc, Nat.add_left_comm]

theorem fresh_eq (supply : Supply) (kind : KeyKind) :
    Key.fresh kind supply = (supply.upcoming kind 0, supply.skip kind 1) := by
  cases kind <;> rfl

theorem draws_add (supply : Supply) (kind : KeyKind) (a b : Nat) :
    supply.draws kind (a + b) = supply.draws kind a ++ (supply.skip kind a).draws kind b := by
  simp [draws, List.range_add, upcoming_skip]

theorem draws_succ (supply : Supply) (kind : KeyKind) (count : Nat) :
    supply.draws kind (count + 1) = supply.draws kind count ++ [supply.upcoming kind count] := by
  simp [draws, List.range_succ]

theorem nodup_draws_sequential (supply : Supply) (count : Nat) :
    (supply.draws .sequential count).Nodup := by
  refine List.nodup_range.map fun i j same => ?_
  have := Key.sequential_injective same
  omega

theorem nodup_draws_uuid :
    (supply.draws .uuid count).Nodup ↔ (supply.randomBits count).Nodup := by
  simp only [draws, randomBits, List.Nodup, List.pairwise_map, upcoming, ne_eq, Key.uuid_eq_iff]

/-- Only random keys can come twice. -/
theorem nodup_draws (random : kind = .uuid → (supply.randomBits count).Nodup) :
    (supply.draws kind count).Nodup := by
  cases kind with
  | uuid => exact nodup_draws_uuid.2 (random rfl)
  | sequential => exact supply.nodup_draws_sequential count

theorem nodup_draws_add : (supply.draws kind (a + b)).Nodup ↔
    (supply.draws kind a).Nodup ∧ ((supply.skip kind a).draws kind b).Nodup ∧
      (supply.draws kind a).Disjoint ((supply.skip kind a).draws kind b) := by
  rw [draws_add, List.nodup_append']

theorem mem_draws_add {key : Key} : key ∈ supply.draws kind (a + b) ↔
    key ∈ supply.draws kind a ∨ key ∈ (supply.skip kind a).draws kind b := by
  rw [draws_add, List.mem_append]

end Supply

/-! ## Post-order -/

namespace Node

mutual

/-- The node and everything below it, each node after its children. -/
def postorder : Node → List Node
  | n@⟨_, _, _, none⟩ => [n]
  | n@⟨_, _, _, some kids⟩ => postorderAll kids ++ [n]

def postorderAll : List Node → List Node
  | [] => []
  | n :: ns => postorder n ++ postorderAll ns

end

theorem postorderAll_eq_flatMap (ns : List Node) : postorderAll ns = ns.flatMap postorder := by
  induction ns with
  | nil => rfl
  | cons n ns ih => simp [postorderAll, ih]

theorem postorder_eq (n : Node) : n.postorder = n.children.flatMap postorder ++ [n] := by
  obtain ⟨_, _, _, _ | kids⟩ := n
  · rfl
  · simp [postorder, postorderAll_eq_flatMap, children]

theorem postorder_perm_preorder (n : Node) : n.postorder.Perm n.preorder := by
  induction n using children_induction with
  | step n ih =>
    rw [postorder_eq, preorder_eq]
    exact (List.perm_append_singleton _ _).trans (.cons _ (.flatMap_left _ ih))

end Node

/-! ## Building -/

namespace Sketch

mutual

/-- The number of nodes of a sketch. -/
def size : Sketch → Nat
  | ⟨_, _, none⟩ => 1
  | ⟨_, _, some parts⟩ => sizeAll parts + 1

def sizeAll : List Sketch → Nat
  | [] => 0
  | part :: parts => size part + sizeAll parts

end

mutual

/-- Every part of the sketch has parts that suit its tag. -/
def Conforms (rule : Tag → List Tag → Prop) : Sketch → Prop
  | ⟨tag, _, none⟩ => rule tag []
  | ⟨tag, _, some parts⟩ => rule tag (parts.map (·.tag)) ∧ AllConform rule parts

def AllConform (rule : Tag → List Tag → Prop) : List Sketch → Prop
  | [] => True
  | part :: parts => Conforms rule part ∧ AllConform rule parts

end

mutual

/-- The nodes that are built take the next keys, in post-order. -/
theorem build_keys (kind : KeyKind) : (sketch : Sketch) → (supply : Supply) →
    (build kind sketch supply).1.postorder.map (·.key) = supply.draws kind sketch.size ∧
      (build kind sketch supply).2 = supply.skip kind sketch.size
  | ⟨tag, data, none⟩, supply => ⟨by cases kind <;> rfl, by cases kind <;> rfl⟩
  | ⟨tag, data, some parts⟩, supply => by
    obtain ⟨hkeys, hsupply⟩ := buildAll_keys kind parts supply
    have built : build kind ⟨tag, data, some parts⟩ supply =
        let all := buildAll kind parts supply
        let key := Key.fresh kind all.2
        ({ key := key.1, tag, data, kids := some all.1 }, key.2) := rfl
    rw [built]
    simp only [hsupply, Supply.fresh_eq, Supply.skip_skip, Supply.upcoming_skip, size,
      Supply.draws_succ, Nat.add_zero, and_true]
    rw [Node.postorder_eq, List.map_append, List.map_flatMap]
    exact congrArg (· ++ [supply.upcoming kind (sizeAll parts)]) hkeys

theorem buildAll_keys (kind : KeyKind) : (parts : List Sketch) → (supply : Supply) →
    ((buildAll kind parts supply).1.flatMap fun n => n.postorder.map (·.key)) =
        supply.draws kind (sizeAll parts) ∧
      (buildAll kind parts supply).2 = supply.skip kind (sizeAll parts)
  | [], supply => ⟨rfl, (supply.skip_zero kind).symm⟩
  | part :: parts, supply => by
    obtain ⟨hkeys, hsupply⟩ := build_keys kind part supply
    obtain ⟨hrest, hlast⟩ := buildAll_keys kind parts (supply.skip kind part.size)
    have built : buildAll kind (part :: parts) supply =
        let first := build kind part supply
        let rest := buildAll kind parts first.2
        (first.1 :: rest.1, rest.2) := rfl
    rw [built]
    simp only [hsupply, List.flatMap_cons, hkeys, hrest, hlast, sizeAll, Supply.draws_add,
      Supply.skip_skip, and_self]

end

theorem keys_build_perm (kind : KeyKind) (sketch : Sketch) (supply : Supply) :
    (build kind sketch supply).1.keys.Perm (supply.draws kind sketch.size) := by
  rw [← (build_keys kind sketch supply).1]
  exact ((Node.postorder_perm_preorder _).map _).symm

theorem build_supply (kind : KeyKind) (sketch : Sketch) (supply : Supply) :
    (build kind sketch supply).2 = supply.skip kind sketch.size :=
  (build_keys kind sketch supply).2

theorem distinct_build_iff {kind : KeyKind} {sketch : Sketch} {supply : Supply} :
    (build kind sketch supply).1.Distinct ↔ (supply.draws kind sketch.size).Nodup :=
  (keys_build_perm kind sketch supply).nodup_iff

theorem mem_keys_build {kind : KeyKind} {sketch : Sketch} {supply : Supply} {key : Key} :
    key ∈ (build kind sketch supply).1.keys ↔ key ∈ supply.draws kind sketch.size :=
  (keys_build_perm kind sketch supply).mem_iff

theorem tag_build (kind : KeyKind) (sketch : Sketch) (supply : Supply) :
    (build kind sketch supply).1.tag = sketch.tag := by
  obtain ⟨_, _, _ | _⟩ := sketch <;> rfl

mutual

/-- What is built conforms to a rule if its sketch does. -/
theorem build_conforms {rule : Tag → List Tag → Prop} (kind : KeyKind) :
    (sketch : Sketch) → (supply : Supply) → sketch.Conforms rule →
      (build kind sketch supply).1.Conforms rule
  | ⟨_, _, none⟩, _, h => Node.conforms_iff.2 ⟨h, by
      intro c hc
      cases hc⟩
  | ⟨tag, data, some parts⟩, supply, h => by
    obtain ⟨htags, hall⟩ := buildAll_conforms kind parts supply h.2
    refine Node.conforms_iff.2 ⟨?_, hall⟩
    have tags : (build kind ⟨tag, data, some parts⟩ supply).1.childTags =
        (buildAll kind parts supply).1.map (·.tag) := rfl
    rw [tag_build, tags, htags]
    exact h.1

theorem buildAll_conforms {rule : Tag → List Tag → Prop} (kind : KeyKind) :
    (parts : List Sketch) → (supply : Supply) → AllConform rule parts →
      (buildAll kind parts supply).1.map (·.tag) = parts.map (·.tag) ∧
        ∀ n ∈ (buildAll kind parts supply).1, n.Conforms rule
  | [], _, _ => ⟨rfl, by
      intro n hn
      cases hn⟩
  | part :: parts, supply, h => by
    obtain ⟨htags, hall⟩ := buildAll_conforms kind parts (build kind part supply).2 h.2
    have built : (buildAll kind (part :: parts) supply).1 =
        (build kind part supply).1 :: (buildAll kind parts (build kind part supply).2).1 := rfl
    rw [built, List.map_cons, List.map_cons, tag_build, htags]
    refine ⟨rfl, List.forall_mem_cons.2 ⟨build_conforms kind part supply h.1, hall⟩⟩

end

def defaults : List Sketch := [query, select, column, join, cte, leaf .aliasName]

theorem defaults_conform : ∀ sketch ∈ defaults, sketch.Conforms Tag.Admits := by
  simp [defaults, query, select, column, join, cte, branch, leaf, Conforms, AllConform, Tag.Admits]

end Sketch

end QueryTree
