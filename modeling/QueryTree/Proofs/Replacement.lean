import QueryTree.Proofs.Paths

/-! What replacing the node at a path does to a tree. The nodes on the way down
are rebuilt around the new one and everything beside them stays, so the
pre-order of the new tree is that of the old one with one stretch exchanged. -/

namespace QueryTree.Node

/-! ## One step -/

theorem replaceFirst_split {before after : List Node} {c : Node} {key : Key} (hk : c.key = key)
    (hb : ∀ b ∈ before, b.key ≠ key) (new : Node) :
    replaceFirst key new (before ++ c :: after) = before ++ new :: after := by
  induction before with
  | nil => simp [replaceFirst, hk]
  | cons b before ih =>
    have hne : b.key ≠ key := hb b (by simp)
    rw [List.cons_append, replaceFirst, if_neg hne, ih fun a ha => hb a (by simp [ha])]
    rfl

theorem replaceBelow_nil (r n : Node) : replaceBelow r n [] = .ok r := by
  rw [replaceBelow]

theorem replaceBelow_cons_eq_ok {r n new : Node} {key : Key} {keys : List Key} :
    replaceBelow r n (key :: keys) = .ok new ↔
      ∃ c c', n.child key = some c ∧ replaceBelow r c keys = .ok c' ∧
        new = n.withChildren (replaceFirst key c' n.children) := by
  rw [replaceBelow]
  cases n.child key with
  | none => simp
  | some c =>
    cases h : replaceBelow r c keys with
    | error e => simp [h, Except.map]
    | ok c' => simp [h, Except.map, eq_comm]

/-- One step of a replacement: the child on the way changes in its place. -/
theorem replaceBelow_cons_split {r n new : Node} {key : Key} {keys : List Key}
    (h : replaceBelow r n (key :: keys) = .ok new) :
    ∃ before c c' after, n.children = before ++ c :: after ∧ n.child key = some c ∧
      (∀ b ∈ before, b.key ≠ key) ∧ replaceBelow r c keys = .ok c' ∧
      new = n.withChildren (before ++ c' :: after) := by
  obtain ⟨c, c', hc, hr, rfl⟩ := replaceBelow_cons_eq_ok.1 h
  obtain ⟨before, after, hs, hk, hb⟩ := child_split hc
  refine ⟨before, c, c', after, hs, hc, hb, hr, ?_⟩
  rw [hs, replaceFirst_split hk hb]

/-- The same step, at a child whose place is known. -/
theorem replaceBelow_split_eq_ok {r n new c : Node} {before after : List Node} {keys : List Key}
    (hs : n.children = before ++ c :: after) (hb : ∀ b ∈ before, b.key ≠ c.key)
    (h : replaceBelow r n (c.key :: keys) = .ok new) :
    ∃ c', replaceBelow r c keys = .ok c' ∧ new = n.withChildren (before ++ c' :: after) := by
  obtain ⟨d, c', hd, hr, rfl⟩ := replaceBelow_cons_eq_ok.1 h
  obtain rfl : c = d := Option.some.inj ((child_eq_of_split hs hb).symm.trans hd)
  exact ⟨c', hr, by rw [hs, replaceFirst_split rfl hb]⟩

/-- A relation that an exchange of one child hands on to the parents holds between the
trees if it holds between the nodes exchanged. -/
@[elab_as_elim]
theorem replaceBelow_induction {P : Node → Node → Prop} {n t r new : Node} {keys : List Key}
    (parent : ∀ n before c c' after, n.children = before ++ c :: after → P c c' →
      P n (n.withChildren (before ++ c' :: after)))
    (ht : n.descend keys = some t) (exchanged : P t r) (h : replaceBelow r n keys = .ok new) :
    P n new := by
  induction keys generalizing n new with
  | nil =>
    rw [replaceBelow_nil] at h
    obtain rfl := Option.some.inj ht
    obtain rfl := Except.ok.inj h
    exact exchanged
  | cons key keys ih =>
    obtain ⟨before, c, c', after, hs, hc, -, hr, rfl⟩ := replaceBelow_cons_split h
    rw [descend_cons, hc] at ht
    exact parent n before c c' after hs (ih ht hr)

/-- A replacement succeeds wherever there is a node to replace. -/
theorem exists_replaceBelow {n t : Node} {keys : List Key} (h : n.descend keys = some t)
    (r : Node) : ∃ new, replaceBelow r n keys = .ok new := by
  induction keys generalizing n with
  | nil => exact ⟨r, replaceBelow_nil r n⟩
  | cons key keys ih =>
    obtain ⟨c, hc, ht⟩ := descend_cons_eq_some.1 h
    obtain ⟨c', hr⟩ := ih ht
    exact ⟨_, replaceBelow_cons_eq_ok.2 ⟨c, c', hc, hr, rfl⟩⟩

theorem replaceAt_eq_ok {root r new : Node} {path : List Key} :
    root.replaceAt path r = .ok new ↔ path ≠ [] ∧ replaceBelow r root path.tail = .ok new := by
  cases path with
  | nil => simp [replaceAt]
  | cons key keys => simp [replaceAt]

/-- A replacement takes the place of the whole tree, or leaves the root its key and tag. -/
theorem head_or_replacement {n r new : Node} {keys : List Key}
    (h : replaceBelow r n keys = .ok new) :
    (keys = [] ∧ new = r) ∨ new.key = n.key ∧ new.tag = n.tag := by
  cases keys with
  | nil =>
    rw [replaceBelow_nil] at h
    exact .inl ⟨rfl, (Except.ok.inj h).symm⟩
  | cons key keys =>
    obtain ⟨c, c', -, -, rfl⟩ := replaceBelow_cons_eq_ok.1 h
    exact .inr ⟨rfl, rfl⟩

theorem tag_replaceBelow {n t r new : Node} {keys : List Key} (ht : n.descend keys = some t)
    (tag : r.tag = t.tag) (h : replaceBelow r n keys = .ok new) : new.tag = n.tag := by
  rcases head_or_replacement h with ⟨rfl, rfl⟩ | ⟨-, same⟩
  · obtain rfl := Option.some.inj ht
    exact tag
  · exact same

/-- A replacement with the key and tag of the old node leaves those of the root alone. -/
theorem head_replaceBelow {n t r new : Node} {keys : List Key} (ht : n.descend keys = some t)
    (key : r.key = t.key) (tag : r.tag = t.tag) (h : replaceBelow r n keys = .ok new) :
    new.key = n.key ∧ new.tag = n.tag := by
  rcases head_or_replacement h with ⟨rfl, rfl⟩ | same
  · obtain rfl := Option.some.inj ht
    exact ⟨key, tag⟩
  · exact same

/-! ## Splicing -/

/-- A view of single nodes that sees nothing of the children besides what `alike`
children have in common. -/
structure Local {β : Type} (view : Node → β) (alike : Node → Node → Prop) : Prop where
  rebuilt : ∀ n children, alike n (n.withChildren children)
  view_eq : ∀ n before c c' after, n.children = before ++ c :: after → alike c c' →
    view (n.withChildren (before ++ c' :: after)) = view n

section Splicing

variable {β : Type} {view : Node → β} {alike : Node → Node → Prop} {root t : Node}
  {keys : List Key}

/-- The pre-order of a tree, cut around the subtree at a place. Putting something alike
there leaves the nodes after it as they are, and the nodes before it in view: of
those, only the ones on the way down are rebuilt. -/
theorem Local.cut (hv : Local view alike) (h : root.descend keys = some t) :
    ∃ before after, root.preorder = before ++ t.preorder ++ after ∧
      ∀ r new, alike t r → replaceBelow r root keys = .ok new →
        alike root new ∧ ∃ before', new.preorder = before' ++ r.preorder ++ after ∧
          before'.map view = before.map view := by
  induction keys generalizing root with
  | nil =>
    obtain rfl := Option.some.inj h
    refine ⟨[], [], by simp, fun r new ha hr => ?_⟩
    rw [replaceBelow_nil] at hr
    obtain rfl := Except.ok.inj hr
    exact ⟨ha, [], by simp, rfl⟩
  | cons key keys ih =>
    obtain ⟨c, hc, ht⟩ := descend_cons_eq_some.1 h
    obtain ⟨before, after, hpre, hnew⟩ := ih ht
    obtain ⟨front, back, hs, hk, hb⟩ := child_split hc
    refine ⟨root :: front.flatMap preorder ++ before, after ++ back.flatMap preorder, ?_,
      fun r new ha hr => ?_⟩
    · rw [preorder_eq root, hs]
      simp [hpre]
    · obtain ⟨d, c', hd, hr, rfl⟩ := replaceBelow_cons_eq_ok.1 hr
      obtain rfl : c = d := Option.some.inj (hc.symm.trans hd)
      obtain ⟨hc', before', hpre', hview⟩ := hnew r c' ha hr
      rw [hs, replaceFirst_split hk hb]
      refine ⟨hv.rebuilt _ _,
        root.withChildren (front ++ c' :: back) :: front.flatMap preorder ++ before', ?_, ?_⟩
      · rw [preorder_eq]
        simp [hpre']
      · rw [List.map_append, List.map_append, List.map_cons, List.map_cons, hview,
          hv.view_eq root front c c' back hs hc']

/-- The view of a tree in pre-order: putting something alike at a place changes the
middle part only. -/
theorem Local.splice (hv : Local view alike) (h : root.descend keys = some t) :
    ∃ pre post, root.preorder.map view = pre ++ t.preorder.map view ++ post ∧
      ∀ r new, alike t r → replaceBelow r root keys = .ok new →
        alike root new ∧ new.preorder.map view = pre ++ r.preorder.map view ++ post := by
  obtain ⟨before, after, hold, hnew⟩ := hv.cut h
  refine ⟨before.map view, after.map view, by rw [hold]; simp, fun r new ha hr => ?_⟩
  obtain ⟨hroot, before', hnew, hview⟩ := hnew r new ha hr
  exact ⟨hroot, by rw [hnew]; simp [hview]⟩

end Splicing

/-! ## What a rebuilt node keeps -/

/-- The tags of the children, in order. -/
def childTags (n : Node) : List Tag := n.children.map (·.tag)

/-- What the rules of a document look at in one node. -/
def outline (n : Node) : Key × Tag × List Tag := (n.key, n.tag, n.childTags)

theorem outline_local : Local outline fun a b => b.tag = a.tag where
  rebuilt _ _ := rfl
  view_eq n before c c' after hs ht := by
    simp [outline, childTags, hs, ht]

end QueryTree.Node
