import QueryTree.Proofs.Face

/-! How far an edit reaches. Names are resolved downwards, and what a node passes
down is read off the faces of its children. The nodes on the way down to an edit
are rebuilt one around the other, and as long as the face of each stays the same,
so do the scopes beside the way. -/

namespace QueryTree

/-- The second node is the first one with another child in the place of one
child, its key and tag kept. -/
structure Node.Rebuilt (n n' : Node) (before : List Node) (c c' : Node) (after : List Node) :
    Prop where
  children : n.children = before ++ c :: after
  first : ∀ b ∈ before, b.key ≠ c.key
  key : c'.key = c.key
  tag : c'.tag = c.tag
  result : n' = n.withChildren (before ++ c' :: after)

/-- What a node passes down by itself is the same for the second node. -/
structure Node.SamePass (n n' : Node) : Prop where
  tag : n'.tag = n.tag
  own : n.tag = .query → n'.ownSchema = n.ownSchema
  offer : n.tag = .select → ∀ scope, n'.offered scope = n.offered scope

/-- A link gives the same scope when all that its kind of parent reads is the same. -/
theorem Scope.enter_congr (scope : Scope) {n n' c c' : Node} {before before' : List Node}
    (parentTag : n'.tag = n.tag) (childTag : c'.tag = c.tag)
    (own : n.tag = .query → c.tag = .select → n'.ownSchema = n.ownSchema)
    (tables : n.tag = .ctes → Node.cteTables before' = Node.cteTables before)
    (offer : n.tag = .select → n'.offered scope = n.offered scope) :
    scope.enter ⟨n', before', c'⟩ = scope.enter ⟨n, before, c⟩ := by
  have sameSchema : Link.ownSchema? ⟨n', before', c'⟩ = Link.ownSchema? ⟨n, before, c⟩ := by
    unfold Link.ownSchema?
    show (if n'.tag = .query ∧ c'.tag = .select then _ else _) = _
    rw [parentTag, childTag]
    by_cases query : n.tag = .query ∧ c.tag = .select
    · rw [if_pos query, if_pos query, own query.1 query.2]
    · rw [if_neg query, if_neg query]
      by_cases ctes : n.tag = .ctes
      · rw [if_pos ctes, if_pos ctes, tables ctes]
      · rw [if_neg ctes, if_neg ctes]
  have sameOpens : Link.Opens ⟨n', before', c'⟩ ↔ Link.Opens ⟨n, before, c⟩ := by
    unfold Link.Opens
    show n'.tag = .select ∧ _ ↔ _
    rw [parentTag, childTag]
  unfold Scope.enter
  rw [sameSchema]
  by_cases opens : Link.Opens ⟨n, before, c⟩
  · rw [if_pos opens, if_pos (sameOpens.2 opens), offer opens.1]
  · rw [if_neg opens, if_neg fun h => opens (sameOpens.1 h)]

namespace Node

variable {n n' c c' m m' : Node} {before after : List Node} {place keys : List Key}

theorem key_ne_around {key : Key} (hb : ∀ b ∈ before, b.key ≠ key) (hc : key ≠ c.key)
    (ha : ∀ a ∈ after, a.key ≠ key) : ∀ d ∈ before ++ c :: after, d.key ≠ key := by
  intro d hd
  rw [List.mem_append, List.mem_cons] at hd
  rcases hd with hd | rfl | hd
  · exact hb d hd
  · exact hc.symm
  · exact ha d hd

theorem cteTables_congr (face : c'.face = c.face) : cteTables [c'] = cteTables [c] := by
  rw [cteTables_eq_faces, cteTables_eq_faces, List.map_singleton, List.map_singleton, face]

/-- Down into a child that was not edited, at its places before and after the edit. -/
theorem SamePass.scopeBelow_eq (pass : SamePass n n')
    {d : Node} {front front' back back' : List Node}
    (old : n.children = front ++ d :: back) (new : n'.children = front' ++ d :: back')
    (first : ∀ b ∈ front, b.key ≠ d.key) (first' : ∀ b ∈ front', b.key ≠ d.key)
    (tables : n.tag = .ctes → cteTables front' = cteTables front) (scope : Scope)
    (keys : List Key) :
    n'.scopeBelow scope (d.key :: keys) = n.scopeBelow scope (d.key :: keys) := by
  have entered : scope.enter ⟨n', front', d⟩ = scope.enter ⟨n, front, d⟩ :=
    scope.enter_congr pass.tag rfl (fun query _ => pass.own query) tables
      fun select => pass.offer select scope
  rw [scopeBelow_split old first, scopeBelow_split new first', entered]

namespace Rebuilt

/-! ## What a rebuilt node shows -/

theorem children' (h : Rebuilt n n' before c c' after) :
    n'.children = before ++ c' :: after := by
  rw [h.result]
  rfl

theorem first' (h : Rebuilt n n' before c c' after) : ∀ b ∈ before, b.key ≠ c'.key := by
  rw [h.key]
  exact h.first

theorem parent_tag (h : Rebuilt n n' before c c' after) : n'.tag = n.tag := by
  rw [h.result]
  rfl

theorem faces_eq (h : Rebuilt n n' before c c' after) (face : c'.face = c.face) :
    n'.faces = n.faces := by
  unfold faces
  rw [h.children, h.children', List.map_append, List.map_append, List.map_cons, List.map_cons,
    face]

theorem face_eq (h : Rebuilt n n' before c c' after) (face : c'.face = c.face) :
    n'.face = n.face := by
  have faces : n'.faces = n.faces := h.faces_eq face
  rw [h.result] at faces ⊢
  exact face_congr rfl rfl rfl faces

theorem offered_eq (h : Rebuilt n n' before c c' after) (face : c'.face = c.face)
    (scope : Scope) : n'.offered scope = n.offered scope := by
  rw [offered_eq_faces, offered_eq_faces, h.faces_eq face]

theorem cteTables_eq (h : Rebuilt n n' before c c' after)
    (tables : cteTables [c'] = cteTables [c]) : cteTables n'.children = cteTables n.children := by
  have split (d : Node) : cteTables (before ++ d :: after) =
      cteTables before ++ (cteTables [d] ++ cteTables after) := by
    rw [cteTables_append, ← cteTables_append [d]]
    rfl
  rw [h.children, h.children', split, split, tables]

/-- The own tables of a query hang on the tables of its CTE list. -/
theorem ownSchema_eq (h : Rebuilt n n' before c c' after)
    (tables : c.tag = .ctes → cteTables c'.children = cteTables c.children) :
    n'.ownSchema = n.ownSchema := by
  unfold ownSchema childOfTag
  rw [h.children, h.children', List.find?_append, List.find?_append, List.find?_cons,
    List.find?_cons, h.tag]
  cases before.find? (·.tag = .ctes) with
  | some d => rfl
  | none =>
    by_cases ctes : c.tag = .ctes
    · simp [ctes, tables ctes]
    · simp [ctes]

theorem ownSchema_eq_of_select (h : Rebuilt n n' before c c' after) (select : c.tag = .select) :
    n'.ownSchema = n.ownSchema := by
  refine h.ownSchema_eq fun ctes => ?_
  rw [select] at ctes
  cases ctes

theorem samePass_of_face (h : Rebuilt n n' before c c' after) (face : c'.face = c.face)
    (tables : cteTables c'.children = cteTables c.children) : SamePass n n' := by
  refine ⟨h.parent_tag, ?_, ?_⟩
  · intro _
    exact h.ownSchema_eq fun _ => tables
  · intro _ scope
    exact h.offered_eq face scope

theorem samePass_of_ctes (h : Rebuilt n n' before c c' after) (ctes : n.tag = .ctes) :
    SamePass n n' := by
  refine ⟨h.parent_tag, ?_, ?_⟩
  · intro query
    rw [ctes] at query
    cases query
  · intro select
    rw [ctes] at select
    cases select

theorem samePass_of_select (h : Rebuilt n n' before c c' after) (query : n.tag = .query)
    (select : c.tag = .select) : SamePass n n' := by
  refine ⟨h.parent_tag, ?_, ?_⟩
  · intro _
    exact h.ownSchema_eq_of_select select
  · intro other
    rw [query] at other
    cases other

/-! ## One step down -/

/-- Down into the child that was edited, if its face is the same. -/
theorem scopeBelow_same (h : Rebuilt n n' before c c' after) (face : c'.face = c.face)
    (inner : ∀ scope, c'.scopeBelow scope keys = c.scopeBelow scope keys)
    (scope : Scope) :
    n'.scopeBelow scope (c.key :: keys) = n.scopeBelow scope (c.key :: keys) := by
  have entered : scope.enter ⟨n', before, c'⟩ = scope.enter ⟨n, before, c⟩ := by
    refine scope.enter_congr h.parent_tag h.tag ?_ (fun _ => rfl) fun _ => h.offered_eq face scope
    intro _ select
    exact h.ownSchema_eq_of_select select
  rw [scopeBelow_split h.children h.first, ← h.key, scopeBelow_split h.children' h.first', entered]
  exact inner _

/-- Down into a sibling before the child that was edited. -/
theorem scopeBelow_before (h : Rebuilt n n' before c c' after) (pass : SamePass n n')
    {d : Node} (hd : d ∈ before) (scope : Scope) (keys : List Key) :
    n'.scopeBelow scope (d.key :: keys) = n.scopeBelow scope (d.key :: keys) := by
  -- the first sibling with that key is the one that the keys find
  obtain ⟨e, he⟩ : ∃ e, before.find? (·.key = d.key) = some e :=
    Option.isSome_iff_exists.1 (List.find?_isSome.2 ⟨d, hd, by simp⟩)
  obtain ⟨hk, front, back, hs, hf⟩ := List.find?_eq_some_iff_append.1 he
  have key : d.key = e.key := by simpa [eq_comm] using hk
  have first : ∀ b ∈ front, b.key ≠ e.key := by
    intro b hb
    have hne := hf b hb
    rw [← key]
    simpa using hne
  have old : n.children = front ++ e :: (back ++ c :: after) := by rw [h.children, hs]; simp
  have new : n'.children = front ++ e :: (back ++ c' :: after) := by rw [h.children', hs]; simp
  rw [key]
  exact pass.scopeBelow_eq old new first first (fun _ => rfl) scope keys

/-- Down into a sibling after the child that was edited. -/
theorem scopeBelow_after (h : Rebuilt n n' before c c' after) (pass : SamePass n n')
    (tables : n.tag = .ctes → cteTables [c'] = cteTables [c])
    {key : Key} (hb : ∀ b ∈ before, b.key ≠ key) (hk : key ≠ c.key) (scope : Scope)
    (keys : List Key) : n'.scopeBelow scope (key :: keys) = n.scopeBelow scope (key :: keys) := by
  have hk' : key ≠ c'.key := by rwa [h.key]
  cases found : after.find? (·.key = key) with
  | none =>
    have ha : ∀ a ∈ after, a.key ≠ key := by
      intro a ha
      simpa using List.find?_eq_none.1 found a ha
    have old : n.child key = none := by
      refine child_eq_none ?_
      rw [h.children]
      exact key_ne_around hb hk ha
    have new : n'.child key = none := by
      refine child_eq_none ?_
      rw [h.children']
      exact key_ne_around hb hk' ha
    rw [scopeBelow_none old, scopeBelow_none new]
  | some d =>
    obtain ⟨hd, front, back, hs, hf⟩ := List.find?_eq_some_iff_append.1 found
    obtain rfl : d.key = key := by simpa using hd
    have hf : ∀ b ∈ front, b.key ≠ d.key := by
      intro b hm
      simpa using hf b hm
    have old : n.children = (before ++ c :: front) ++ d :: back := by rw [h.children, hs]; simp
    have new : n'.children = (before ++ c' :: front) ++ d :: back := by rw [h.children', hs]; simp
    refine pass.scopeBelow_eq old new (key_ne_around hb hk hf) (key_ne_around hb hk' hf) ?_
      scope keys
    intro ctes
    have front_eq : cteTables (c' :: front) = cteTables (c :: front) := by
      rw [← List.singleton_append, cteTables_append, tables ctes, ← cteTables_append]
      rfl
    rw [cteTables_append, cteTables_append, front_eq]

/-- Down into any sibling of the child that was edited. -/
theorem scopeBelow_sibling (h : Rebuilt n n' before c c' after) (pass : SamePass n n')
    (tables : n.tag = .ctes → cteTables [c'] = cteTables [c])
    {key : Key} (hk : key ≠ c.key) (scope : Scope) (keys : List Key) :
    n'.scopeBelow scope (key :: keys) = n.scopeBelow scope (key :: keys) := by
  by_cases hd : ∃ d ∈ before, d.key = key
  · obtain ⟨d, hd, rfl⟩ := hd
    exact h.scopeBelow_before pass hd scope keys
  · have hb : ∀ b ∈ before, b.key ≠ key := fun b hb he => hd ⟨b, hb, he⟩
    exact h.scopeBelow_after pass tables hb hk scope keys

theorem face_eq_of_hidden (h : Rebuilt n n' before c c' after)
    (hidden : n.tag = .query ∨ n.tag = .ctes) : n'.face = n.face := by
  have hidden' : n'.tag = .query ∨ n'.tag = .ctes := by
    rw [h.parent_tag]
    exact hidden
  rw [face_of_hidden hidden, face_of_hidden hidden', h.result]
  rfl

theorem descend_eq (h : Rebuilt n n' before c c' after) (hc : c'.descend keys = some m) :
    n'.descend (c.key :: keys) = some m := by
  rw [descend_cons_eq_some, ← h.key]
  exact ⟨c', child_eq_of_split h.children' h.first', hc⟩

end Rebuilt

/-! ## All steps down -/

/-- The second node is the first one with `m'` for `m` at a place below it. -/
inductive Frame : List Key → Node → Node → Node → Node → Prop
  | here (m m' : Node) : Frame [] m m' m m'
  | step {n n' c c' m m' : Node} {before after : List Node} {place : List Key}
      (edit : Rebuilt n n' before c c' after) (rest : Frame place c c' m m') :
      Frame (c.key :: place) n n' m m'

namespace Frame

theorem descend_eq (h : Frame place n n' m m') : n'.descend place = some m' := by
  induction h with
  | here => rfl
  | step edit rest ih => exact edit.descend_eq ih

theorem face_eq (h : Frame place n n' m m') (face : m'.face = m.face) : n'.face = n.face := by
  induction h with
  | here => exact face
  | step edit rest ih => exact edit.face_eq (ih face)

theorem cteTables_eq (h : Frame place n n' m m') (face : m'.face = m.face)
    (tables : cteTables m'.children = cteTables m.children) :
    cteTables n'.children = cteTables n.children := by
  cases h with
  | here => exact tables
  | step edit rest =>
    exact edit.cteTables_eq (cteTables_congr (rest.face_eq face))

/-- What does not change at the place does not change further up, for paths through it. -/
theorem scopeBelow_through (h : Frame place n n' m m') (face : m'.face = m.face)
    (here : ∀ scope, m'.scopeBelow scope keys = m.scopeBelow scope keys) (scope : Scope) :
    n'.scopeBelow scope (place ++ keys) = n.scopeBelow scope (place ++ keys) := by
  induction h generalizing scope with
  | here => exact here scope
  | step edit rest ih => exact edit.scopeBelow_same (rest.face_eq face) (ih face here) scope

/-- Paths that leave the way down to the place are not affected, and those that
go through it only as far as the place itself is. -/
theorem scopeBelow_outside {inner : List Key} (h : Frame place n n' m m')
    (face : m'.face = m.face) (tables : cteTables m'.children = cteTables m.children)
    (here : ∀ scope keys, ¬ inner <+: keys → m'.scopeBelow scope keys = m.scopeBelow scope keys)
    (scope : Scope) (keys : List Key) (outside : ¬ place ++ inner <+: keys) :
    n'.scopeBelow scope keys = n.scopeBelow scope keys := by
  induction h generalizing scope keys with
  | here => exact here scope keys outside
  | @step n n' c c' m m' before after place edit rest ih =>
    have sameFace : c'.face = c.face := rest.face_eq face
    cases keys with
    | nil => rw [scopeBelow, scopeBelow]
    | cons key keys =>
      by_cases hk : key = c.key
      · subst hk
        have deeper : ¬ place ++ inner <+: keys := fun hp =>
          outside (List.cons_prefix_cons.2 ⟨rfl, hp⟩)
        refine edit.scopeBelow_same sameFace (fun scope => ?_) scope
        exact ih face tables here scope keys deeper
      · have pass : SamePass n n' := edit.samePass_of_face sameFace (rest.cteTables_eq face tables)
        exact edit.scopeBelow_sibling pass (fun _ => cteTables_congr sameFace) hk scope keys

/-- Replacing a node is a frame around every node on the way down to it. -/
theorem of_replaceBelow {r t : Node} (hm : n.descend place = some m)
    (ht : n.descend (place ++ keys) = some t) (key : r.key = t.key) (tag : r.tag = t.tag)
    (h : replaceBelow r n (place ++ keys) = .ok n') :
    ∃ m', replaceBelow r m keys = .ok m' ∧ Frame place n n' m m' := by
  induction place generalizing n n' with
  | nil =>
    obtain rfl := Option.some.inj hm
    exact ⟨n', h, .here n n'⟩
  | cons k place ih =>
    obtain ⟨before, c, c', after, hs, hc, hb, hr, result⟩ := replaceBelow_cons_split h
    rw [descend_cons, hc] at hm
    rw [List.cons_append, descend_cons, hc] at ht
    obtain ⟨sameKey, sameTag⟩ := head_replaceBelow ht key tag hr
    obtain ⟨m', hm', rest⟩ := ih hm ht hr
    obtain rfl := child_key hc
    exact ⟨m', hm', .step ⟨hs, hb, sameKey, sameTag, result⟩ rest⟩

end Frame

end Node

end QueryTree
