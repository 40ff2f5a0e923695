import QueryTree.Proofs.Replacement

/-! Locating and replacing the node at a path are the two sides of a lens: putting
back what was found changes nothing, what was put is found, and of two puts the
second counts. They also fail alike, at the first key that no child has. All of
it holds for trees that repeat keys, since both sides take the first child with
a key; what is put has to keep that key. -/

namespace QueryTree.Node

/-! ## One step down -/

/-- The node with another child in the place of the first one with a key. -/
def setChild (n : Node) (key : Key) (new : Node) : Node :=
  n.withChildren (replaceFirst key new n.children)

variable {n c new t r : Node} {key : Key} {keys : List Key}

theorem find?_replaceFirst_of_ne {other : Key} (hk : new.key = key) (hne : other ≠ key)
    (ns : List Node) :
    (replaceFirst key new ns).find? (·.key = other) = ns.find? (·.key = other) := by
  induction ns with
  | nil => rfl
  | cons m ns ih =>
    rw [replaceFirst]
    by_cases hm : m.key = key
    · simp [hm, hk, hne.symm]
    · simp [hm, List.find?_cons, ih]

theorem replaceFirst_replaceFirst (hk : new.key = key) (newer : Node) (ns : List Node) :
    replaceFirst key newer (replaceFirst key new ns) = replaceFirst key newer ns := by
  induction ns with
  | nil => rfl
  | cons m ns ih =>
    by_cases hm : m.key = key
    · simp [replaceFirst, hm, hk]
    · simp [replaceFirst, hm, ih]

theorem replaceFirst_comm {other : Key} {new' : Node} (hk : new.key = key)
    (hk' : new'.key = other) (hne : key ≠ other) (ns : List Node) :
    replaceFirst other new' (replaceFirst key new ns) =
      replaceFirst key new (replaceFirst other new' ns) := by
  induction ns with
  | nil => rfl
  | cons m ns ih =>
    by_cases hm : m.key = key
    · simp [replaceFirst, hm, hk, hne]
    · by_cases hm' : m.key = other
      · simp [replaceFirst, hm', hk', hne.symm]
      · simp [replaceFirst, hm, hm', ih]

theorem child_setChild (hc : n.child key = some c) (hk : new.key = key) :
    (n.setChild key new).child key = some new := by
  obtain ⟨before, after, hs, hc, hb⟩ := child_split hc
  subst hk
  have split : (n.setChild new.key new).children = before ++ new :: after := by
    rw [setChild, hs, replaceFirst_split hc hb]
    rfl
  exact child_eq_of_split split hb

theorem child_setChild_of_ne {other : Key} (hk : new.key = key) (hne : other ≠ key) :
    (n.setChild key new).child other = n.child other :=
  find?_replaceFirst_of_ne hk hne n.children

/-- Putting back the child that is there changes nothing. A node with a child has
a list of children, so none appears. -/
theorem setChild_child (hc : n.child key = some c) : n.setChild key c = n := by
  obtain ⟨before, after, hs, hk, hb⟩ := child_split hc
  rw [setChild, hs, replaceFirst_split hk hb, ← hs]
  exact withChildren_children (by simp [hs])

theorem setChild_setChild (hk : new.key = key) (newer : Node) :
    (n.setChild key new).setChild key newer = n.setChild key newer :=
  congrArg n.withChildren (replaceFirst_replaceFirst hk newer n.children)

theorem setChild_comm {other : Key} {new' : Node} (hk : new.key = key) (hk' : new'.key = other)
    (hne : key ≠ other) :
    (n.setChild key new).setChild other new' = (n.setChild other new').setChild key new :=
  congrArg n.withChildren (replaceFirst_comm hk hk' hne n.children)

/-! ## Along the keys -/

theorem locateBelow_of_child (hc : n.child key = some c) (keys : List Key) :
    n.locateBelow (key :: keys) = c.locateBelow keys := by
  rw [locateBelow, hc]

theorem replaceBelow_of_child (hc : n.child key = some c) (r : Node) (keys : List Key) :
    replaceBelow r n (key :: keys) = (replaceBelow r c keys).map (n.setChild key) := by
  rw [replaceBelow, hc]
  rfl

/-- The replacement has the last of the keys, so the keys still lead to it. Nothing
is asked of a replacement for the root. -/
def Keyed (r : Node) (keys : List Key) : Prop := ∀ key ∈ keys.getLast?, r.key = key

theorem Keyed.tail (h : Keyed r (key :: keys)) : Keyed r keys := by
  cases keys with
  | nil => simp [Keyed]
  | cons k keys => simpa [Keyed] using h

/-- The child on the way keeps its key, also when it is the one replaced. -/
theorem Keyed.key_child {c' : Node} (h : Keyed r (key :: keys)) (hc : n.child key = some c)
    (hr : replaceBelow r c keys = .ok c') : c'.key = key := by
  rcases head_or_replacement hr with ⟨rfl, rfl⟩ | ⟨same, -⟩
  · exact h key (by simp)
  · exact same.trans (child_key hc)

/-- Putting back what was found changes nothing. -/
theorem replaceBelow_self (h : n.locateBelow keys = .ok t) : replaceBelow t n keys = .ok n := by
  induction keys generalizing n with
  | nil =>
    obtain rfl := Except.ok.inj h
    exact replaceBelow_nil n n
  | cons key keys ih =>
    obtain ⟨c, hc, ht⟩ := descend_cons_eq_some.1 (locateBelow_eq_ok.1 h)
    rw [replaceBelow_of_child hc, ih (locateBelow_eq_ok.2 ht), Except.map, setChild_child hc]

/-- What was put is found. -/
theorem locateBelow_replaceBelow (keyed : Keyed r keys) (h : replaceBelow r n keys = .ok new) :
    new.locateBelow keys = .ok r := by
  induction keys generalizing n new with
  | nil =>
    rw [replaceBelow_nil] at h
    obtain rfl := Except.ok.inj h
    rfl
  | cons key keys ih =>
    obtain ⟨c, c', hc, hr, rfl⟩ := replaceBelow_cons_eq_ok.1 h
    have found : (n.setChild key c').child key = some c' :=
      child_setChild hc (keyed.key_child hc hr)
    exact (locateBelow_of_child found keys).trans (ih keyed.tail hr)

/-- Of two puts the second counts. -/
theorem replaceBelow_replaceBelow (keyed : Keyed r keys) (h : replaceBelow r n keys = .ok new)
    (newer : Node) : replaceBelow newer new keys = replaceBelow newer n keys := by
  induction keys generalizing n new with
  | nil => rw [replaceBelow_nil, replaceBelow_nil]
  | cons key keys ih =>
    obtain ⟨c, c', hc, hr, rfl⟩ := replaceBelow_cons_eq_ok.1 h
    have hk : c'.key = key := keyed.key_child hc hr
    have found : (n.setChild key c').child key = some c' := child_setChild hc hk
    have put : (n.setChild key c').setChild key = n.setChild key :=
      funext fun last => setChild_setChild hk last
    rw [replaceBelow_of_child hc, ← ih keyed.tail hr, ← put]
    exact replaceBelow_of_child found newer keys

/-! ## Failing alike -/

theorem replaceBelow_eq_error {error : EditError} :
    replaceBelow r n keys = .error error ↔ n.locateBelow keys = .error error := by
  induction keys generalizing n with
  | nil => simp [replaceBelow, locateBelow]
  | cons key keys ih =>
    cases hc : n.child key with
    | none => rw [replaceBelow, locateBelow, hc]
    | some c =>
      rw [replaceBelow_of_child hc, locateBelow_of_child hc, ← ih]
      cases replaceBelow r c keys with
      | error missing => rw [Except.map]
      | ok c' => simp [Except.map]

/-- How a path fails: it is empty, or the deepest node it reaches has no child with
the next key. Its own first key is not looked at. -/
inductive Fails (root : Node) : List Key → EditError → Prop
  | empty : Fails root [] .emptyPath
  | step {first key : Key} {front back : List Key} {deepest : Node}
      (reached : root.descend front = some deepest)
      (absent : ∀ c ∈ deepest.children, c.key ≠ key) :
      Fails root (first :: (front ++ key :: back)) (.noSuchChild deepest.key key)

theorem locateBelow_eq_error {error : EditError} :
    n.locateBelow keys = .error error ↔
      ∃ front key back deepest, keys = front ++ key :: back ∧ n.descend front = some deepest ∧
        (∀ c ∈ deepest.children, c.key ≠ key) ∧ error = .noSuchChild deepest.key key := by
  constructor
  · intro h
    induction keys generalizing n with
    | nil => cases h
    | cons key keys ih =>
      rw [locateBelow] at h
      cases hc : n.child key with
      | none =>
        rw [hc] at h
        refine ⟨[], key, keys, n, rfl, rfl, fun c hm => ?_, (Except.error.inj h).symm⟩
        simpa using List.find?_eq_none.1 hc c hm
      | some c =>
        rw [hc] at h
        obtain ⟨front, last, back, deepest, rfl, reached, absent, rfl⟩ := ih h
        exact ⟨key :: front, last, back, deepest, rfl,
          descend_cons_eq_some.2 ⟨c, hc, reached⟩, absent, rfl⟩
  · intro h
    obtain ⟨front, key, back, deepest, rfl, reached, absent, rfl⟩ := h
    induction front generalizing n with
    | nil =>
      obtain rfl := Option.some.inj reached
      rw [List.nil_append, locateBelow, child_eq_none absent]
    | cons k front ih =>
      obtain ⟨c, hc, reached⟩ := descend_cons_eq_some.1 reached
      exact (locateBelow_of_child hc _).trans (ih reached)

theorem locate_eq_error {root : Node} {path : List Key} {error : EditError} :
    root.locate path = .error error ↔ Fails root path error := by
  cases path with
  | nil =>
    constructor
    · intro h
      obtain rfl := Except.error.inj h
      exact .empty
    · intro h
      cases h
      rfl
  | cons first keys =>
    refine locateBelow_eq_error.trans ⟨?_, ?_⟩
    · intro h
      obtain ⟨front, key, back, deepest, rfl, reached, absent, rfl⟩ := h
      exact .step reached absent
    · intro h
      cases h with
      | step reached absent => exact ⟨_, _, _, _, rfl, reached, absent, rfl⟩

theorem replaceAt_eq_error {root : Node} {path : List Key} {error : EditError} :
    root.replaceAt path r = .error error ↔ root.locate path = .error error := by
  cases path with
  | nil => exact Iff.rfl
  | cons first keys => exact replaceBelow_eq_error

theorem exists_replaceAt_iff {root : Node} {path : List Key} :
    (∃ new, root.replaceAt path r = .ok new) ↔ ∃ t, root.locate path = .ok t := by
  cases located : root.locate path with
  | error missing => simp [replaceAt_eq_error.2 located]
  | ok t =>
    obtain ⟨nonempty, ht⟩ := locate_eq_ok.1 located
    obtain ⟨new, hr⟩ := exists_replaceBelow ht r
    exact ⟨fun _ => ⟨t, rfl⟩, fun _ => ⟨new, replaceAt_eq_ok.2 ⟨nonempty, hr⟩⟩⟩

theorem keyed_tail {path : List Key} (h : path.length = 1 ∨ path.getLast? = some r.key) :
    Keyed r path.tail := by
  intro key hk
  cases path with
  | nil => simp at hk
  | cons first keys =>
    cases keys with
    | nil => simp at hk
    | cons k keys =>
      have last : some r.key = some key := (h.resolve_left (by simp)).symm.trans hk
      exact Option.some.inj last

/-! ## Putting what has the same key -/

section Put

variable {root : Node} {path : List Key}

theorem keyed_of_descend (h : n.descend keys = some t) (same : r.key = t.key) : Keyed r keys := by
  induction keys generalizing n with
  | nil => simp [Keyed]
  | cons key keys ih =>
    obtain ⟨c, hc, ht⟩ := descend_cons_eq_some.1 h
    cases keys with
    | nil =>
      obtain rfl := Option.some.inj ht
      simpa [Keyed] using same.trans (child_key hc)
    | cons k keys => simpa [Keyed] using ih ht

theorem replaceAt_self (located : root.locate path = .ok t) : root.replaceAt path t = .ok root := by
  obtain ⟨nonempty, ht⟩ := locate_eq_ok.1 located
  exact replaceAt_eq_ok.2 ⟨nonempty, replaceBelow_self (locateBelow_eq_ok.2 ht)⟩

/-- What has the key of the node that it replaces is located in its place, and leaves no
trace when it is replaced in turn. -/
theorem exists_put (located : root.locate path = .ok t) (same : r.key = t.key) :
    ∃ new, root.replaceAt path r = .ok new ∧ new.locate path = .ok r ∧
      ∀ newer, new.replaceAt path newer = root.replaceAt path newer := by
  cases path with
  | nil => cases located
  | cons first keys =>
    obtain ⟨-, ht⟩ := locate_eq_ok.1 located
    obtain ⟨new, hr⟩ := exists_replaceBelow ht r
    have keyed : Keyed r keys := keyed_of_descend ht same
    exact ⟨new, hr, locateBelow_replaceBelow keyed hr, replaceBelow_replaceBelow keyed hr⟩

end Put

/-- Replacing succeeds on the paths that locate a node and fails on all others as
locating does, whatever the first key of the path is. Putting back what a path
locates changes nothing. A replacement for the root, or one that has the last key
of the path, is located by that path, and it leaves no trace when it is replaced
in turn. -/
theorem replaceAt_lens (root : Node) (path : List Key) :
    (∀ r, (∃ new, root.replaceAt path r = .ok new) ↔ ∃ t, root.locate path = .ok t) ∧
    (∀ r error, root.replaceAt path r = .error error ↔ root.locate path = .error error) ∧
    (∀ error, root.locate path = .error error ↔ Fails root path error) ∧
    (path ≠ [] → ∀ other, root.locate (other :: path.tail) = root.locate path ∧
      ∀ r, root.replaceAt (other :: path.tail) r = root.replaceAt path r) ∧
    (∀ t, root.locate path = .ok t → root.replaceAt path t = .ok root) ∧
    ∀ r new, path.length = 1 ∨ path.getLast? = some r.key → root.replaceAt path r = .ok new →
      new.locate path = .ok r ∧ ∀ newer, new.replaceAt path newer = root.replaceAt path newer := by
  refine ⟨fun r => exists_replaceAt_iff, fun r error => replaceAt_eq_error,
    fun error => locate_eq_error, ?_, ?_, ?_⟩
  · intro nonempty other
    cases path with
    | nil => exact absurd rfl nonempty
    | cons first keys => exact ⟨rfl, fun r => rfl⟩
  · intro t located
    cases path with
    | nil => cases located
    | cons first keys => exact replaceBelow_self located
  · intro r new last replaced
    have keyed : Keyed r path.tail := keyed_tail last
    cases path with
    | nil => cases replaced
    | cons first keys =>
      exact ⟨locateBelow_replaceBelow keyed replaced, replaceBelow_replaceBelow keyed replaced⟩

def twin (text : String) : Node :=
  { key := ⟨"twin"⟩, tag := .aliasName, data := { aliasText := some text } }

/-- Two children with one key, of which paths find the first. -/
def twins : Node :=
  { key := ⟨"column"⟩, tag := .column, kids := some [twin "first", twin "second"] }

/-- Edits of the first twin, a path that begins with another key than that of the
root, and a path to a child that is not there. -/
theorem twins_edited :
    twins.replaceAt [⟨"column"⟩, ⟨"twin"⟩] (twin "first") = .ok twins ∧
    (∃ new, twins.replaceAt [⟨"column"⟩, ⟨"twin"⟩] (twin "third") = .ok new ∧
      new.locate [⟨"column"⟩, ⟨"twin"⟩] = .ok (twin "third") ∧
      new.replaceAt [⟨"column"⟩, ⟨"twin"⟩] (twin "first") = .ok twins) ∧
    twins.locate [⟨"elsewhere"⟩, ⟨"twin"⟩] = .ok (twin "first") ∧
    ∀ r, twins.replaceAt [⟨"column"⟩, ⟨"other"⟩, ⟨"twin"⟩] r =
      .error (.noSuchChild ⟨"column"⟩ ⟨"other"⟩) := by
  obtain ⟨succeeds, -, -, anyRoot, back, put⟩ := replaceAt_lens twins [⟨"column"⟩, ⟨"twin"⟩]
  have located : twins.locate [⟨"column"⟩, ⟨"twin"⟩] = .ok (twin "first") := by decide
  have same := back (twin "first") located
  obtain ⟨new, replaced⟩ := (succeeds (twin "third")).2 ⟨_, located⟩
  obtain ⟨found, again⟩ := put (twin "third") new (.inr rfl) replaced
  refine ⟨same, ⟨new, replaced, found, (again _).trans same⟩, ?_, fun r => ?_⟩
  · exact (anyRoot (List.cons_ne_nil _ _) ⟨"elsewhere"⟩).1.trans located
  · obtain ⟨-, alike, fails, -⟩ := replaceAt_lens twins [⟨"column"⟩, ⟨"other"⟩, ⟨"twin"⟩]
    have absent : ∀ c ∈ twins.children, c.key ≠ ⟨"other"⟩ := by decide
    have missing : Fails twins (⟨"column"⟩ :: ([] ++ ⟨"other"⟩ :: [⟨"twin"⟩])) _ :=
      .step rfl absent
    exact (alike r _).2 ((fails _).2 missing)

end QueryTree.Node
