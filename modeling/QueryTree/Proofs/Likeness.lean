import QueryTree.Proofs.DanglingPicks
import QueryTree.Proofs.Face
import Mathlib.Data.List.Forall2

/-! Trees that differ by payloads only. Such trees have the same keys and tags at the
same places, and each payload of the one stands in a given relation to that of the
other. Where aliases keep their texts, both trees have the same own tables
everywhere; where tables keep their picks as well, they have the same scopes. -/

namespace QueryTree

/-! ## Lists side by side -/

section Forall₂

variable {α β γ : Type} {R : α → β → Prop} {as : List α} {bs : List β}

theorem forall₂_find? {p : α → Bool} {q : β → Bool} (h : List.Forall₂ R as bs)
    (same : ∀ a b, R a b → q b = p a) : Option.Rel R (as.find? p) (bs.find? q) := by
  induction h with
  | nil => exact .none
  | @cons a b as bs related _ ih =>
    rw [List.find?_cons, List.find?_cons, same a b related]
    cases p a with
    | true => exact .some related
    | false => exact ih

theorem filterMap_eq_of_forall₂ {f : α → Option γ} {g : β → Option γ} (h : List.Forall₂ R as bs)
    (same : ∀ a b, R a b → g b = f a) : bs.filterMap g = as.filterMap f := by
  induction h with
  | nil => rfl
  | @cons a b as bs related _ ih =>
    rw [List.filterMap_cons, List.filterMap_cons, same a b related, ih]

theorem flatMap_eq_of_forall₂ {f : α → List γ} {g : β → List γ} (h : List.Forall₂ R as bs)
    (same : ∀ a b, R a b → g b = f a) : bs.flatMap g = as.flatMap f := by
  induction h with
  | nil => rfl
  | @cons a b as bs related _ ih =>
    rw [List.flatMap_cons, List.flatMap_cons, same a b related, ih]

theorem map_eq_map_iff_forall₂ {f : α → γ} {g : β → γ} :
    bs.map g = as.map f ↔ List.Forall₂ (fun a b => g b = f a) as bs := by
  rw [eq_comm, ← List.forall₂_eq_eq_eq, List.forall₂_map_left_iff, List.forall₂_map_right_iff]
  exact ⟨fun h => h.imp fun _ _ same => same.symm, fun h => h.imp fun _ _ same => same.symm⟩

/-- What stands side by side comes from the two lists. -/
theorem forall₂_mem (h : List.Forall₂ R as bs) :
    List.Forall₂ (fun a b => a ∈ as ∧ b ∈ bs ∧ R a b) as bs := by
  induction h with
  | nil => exact .nil
  | cons related _ ih =>
    refine .cons ⟨List.mem_cons_self, List.mem_cons_self, related⟩ (ih.imp fun a b pair => ?_)
    exact ⟨List.mem_cons_of_mem _ pair.1, List.mem_cons_of_mem _ pair.2.1, pair.2.2⟩

end Forall₂

/-! ## Trees side by side -/

/-- The second tree has the same keys and tags at the same places as the first one,
and for the payload of each node one that may take its place. -/
inductive Node.Alike (R : Node → Payload → Prop) : Node → Node → Prop
  | mk {n n' : Node} (key : n'.key = n.key) (tag : n'.tag = n.tag) (data : R n n'.data)
      (children : List.Forall₂ (Alike R) n.children n'.children) : Alike R n n'

/-- The links are at the same places of trees that are alike. -/
structure Link.Alike (R : Node → Payload → Prop) (link link' : Link) : Prop where
  parent : Node.Alike R link.parent link'.parent
  before : List.Forall₂ (Node.Alike R) link.before link'.before
  child : Node.Alike R link.child link'.child

/-- Aliases keep their texts. -/
def KeepsNames (R : Node → Payload → Prop) : Prop :=
  ∀ n data, R n data → n.tag = .aliasName → data.alias? = n.data.alias?

/-- Tables keep their picks. -/
def KeepsPicks (R : Node → Payload → Prop) : Prop :=
  ∀ n data, R n data → n.tag = .table → data.picked? = n.data.picked?

namespace Node.Alike

variable {R : Node → Payload → Prop} {n n' : Node}

theorem key (h : Alike R n n') : n'.key = n.key := by
  obtain ⟨key, -, -, -⟩ := h
  exact key

theorem tag (h : Alike R n n') : n'.tag = n.tag := by
  obtain ⟨-, tag, -, -⟩ := h
  exact tag

theorem data (h : Alike R n n') : R n n'.data := by
  obtain ⟨-, -, data, -⟩ := h
  exact data

theorem children (h : Alike R n n') : List.Forall₂ (Alike R) n.children n'.children := by
  obtain ⟨-, -, -, children⟩ := h
  exact children

theorem refl_of (refl : ∀ n, R n n.data) (n : Node) : Alike R n n := by
  induction n using children_induction with
  | step n ih => exact .mk rfl rfl (refl n) (List.forall₂_same.2 ih)

/-- What holds for two nodes whenever it holds for their children, one by one, holds for
nodes that are alike. -/
@[elab_as_elim]
theorem induction {P : Node → Node → Prop}
    (parent : ∀ n n', Alike R n n' → List.Forall₂ P n.children n'.children → P n n')
    (h : Alike R n n') : P n n' := by
  induction n using children_induction generalizing n' with
  | step n ih =>
    refine parent n n' h ((forall₂_mem h.children).imp ?_)
    rintro c c' ⟨hc, -, same⟩
    exact ih c hc same

theorem mono {S : Node → Payload → Prop} (weaker : ∀ n data, R n data → S n data)
    (h : Alike R n n') : Alike S n n' :=
  h.induction fun n _ here children => .mk here.key here.tag (weaker n _ here.data) children

/-- The nodes of both trees stand side by side. -/
theorem preorder (h : Alike R n n') : List.Forall₂ (Alike R) n.preorder n'.preorder := by
  refine h.induction fun n n' here children => ?_
  rw [preorder_eq, preorder_eq n']
  exact .cons here (List.rel_flatMap children fun _ _ below => below)

/-- A tree with something alike at one place is alike. -/
theorem exchange (refl : ∀ n, R n n.data) {t r new : Node} {keys : List Key}
    (ht : n.descend keys = some t) (alike : Alike R t r) (h : replaceBelow r n keys = .ok new) :
    Alike R n new := by
  have kept (ns : List Node) : List.Forall₂ (Alike R) ns ns :=
    List.forall₂_same.2 fun m _ => refl_of refl m
  refine replaceBelow_induction (fun n before c c' after hs below => ?_) ht alike h
  refine .mk rfl rfl (refl n) ?_
  rw [hs]
  exact List.rel_append (kept before) (.cons below (kept after))

/-- A node with another payload in a tree that is otherwise the same. -/
theorem of_replaceBelow (refl : ∀ n, R n n.data) {t new : Node} {keys : List Key} {data : Payload}
    (ht : n.descend keys = some t) (allowed : R t data)
    (h : replaceBelow (t.withData data) n keys = .ok new) : Alike R n new := by
  have alike : Alike R t (t.withData data) :=
    .mk rfl rfl allowed (List.forall₂_same.2 fun m _ => refl_of refl m)
  exact exchange refl ht alike h

/-! ## What a node shows -/

theorem childOfTag (h : Alike R n n') (tag : Tag) :
    Option.Rel (Alike R) (n.childOfTag tag) (n'.childOfTag tag) :=
  forall₂_find? h.children fun c c' same => by rw [same.tag]

theorem childrenOfTag (h : Alike R n n') (tag : Tag) :
    List.Forall₂ (Alike R) (n.childrenOfTag tag) (n'.childrenOfTag tag) :=
  List.rel_filter (fun c c' same => by simp [same.tag]) h.children

section Names

variable (names : KeepsNames R)
include names

theorem alias?_eq (h : Alike R n n') : n'.alias? = n.alias? := by
  have first := h.childOfTag .aliasName
  unfold Node.alias?
  generalize found : n.childOfTag .aliasName = x at first
  generalize n'.childOfTag .aliasName = y at first
  cases first with
  | none => rfl
  | some same => exact names _ _ same.data (tag_of_childOfTag found)

theorem namedColumn?_eq (h : Alike R n n') : n'.namedColumn? = n.namedColumn? := by
  rw [namedColumn?, namedColumn?, h.alias?_eq names, h.key]

theorem exposedColumns_eq (h : Alike R n n') : n'.exposedColumns = n.exposedColumns := by
  have first := h.childOfTag .columns
  unfold exposedColumns
  generalize n.childOfTag .columns = x at first
  generalize n'.childOfTag .columns = y at first
  cases first with
  | none => rfl
  | some same =>
    exact filterMap_eq_of_forall₂ (same.childrenOfTag .column) fun _ _ column =>
      column.namedColumn?_eq names

theorem cteTable?_eq (h : Alike R n n') : n'.cteTable? = n.cteTable? := by
  have first := h.childOfTag .select
  unfold cteTable?
  rw [h.alias?_eq names, h.key]
  generalize n.childOfTag .select = x at first
  generalize n'.childOfTag .select = y at first
  cases first with
  | none => rfl
  | some same =>
    simp only [Option.bind_eq_bind, Option.bind_some, same.exposedColumns_eq names]

theorem cteTables_eq {ns ns' : List Node} (h : List.Forall₂ (Alike R) ns ns') :
    cteTables ns' = cteTables ns := by
  unfold cteTables
  rw [List.filterMap_filter, List.filterMap_filter]
  refine filterMap_eq_of_forall₂ h fun c c' same => ?_
  rw [same.tag, same.cteTable?_eq names]

theorem ownSchema_eq (h : Alike R n n') : n'.ownSchema = n.ownSchema := by
  have first := h.childOfTag .ctes
  unfold ownSchema
  generalize n.childOfTag .ctes = x at first
  generalize n'.childOfTag .ctes = y at first
  cases first with
  | none => rfl
  | some same => exact congrArg Schema.mk (cteTables_eq names same.children)

end Names

/-- Sources are at the same places. -/
theorem sources (h : Alike R n n') : List.Forall₂ (Alike R) n.sources n'.sources := by
  have first := h.childOfTag .fromClause
  unfold Node.sources
  generalize n.childOfTag .fromClause = x at first
  generalize n'.childOfTag .fromClause = y at first
  cases first with
  | none => exact .nil
  | some same =>
    exact List.rel_filterMap (fun _ _ holder => holder.childOfTag .table)
      (.cons same (same.childrenOfTag .join))

theorem offered_eq (names : KeepsNames R) (picks : KeepsPicks R) (h : Alike R n n')
    (scope : Scope) : n'.offered scope = n.offered scope := by
  refine congrArg Offer.mk (flatMap_eq_of_forall₂ (forall₂_mem h.sources) ?_)
  rintro source source' ⟨hs, -, same⟩
  unfold sourceColumns sourceTable?
  rw [same.alias?_eq names, picks _ _ same.data (tag_of_mem_sources hs)]

end Node.Alike

/-! ## Scopes side by side -/

/-- The same tables are in scope. -/
structure Scope.SameTables (scope scope' : Scope) : Prop where
  schema : scope'.schema = scope.schema
  localSchema : scope'.localSchema = scope.localSchema

theorem Scope.SameTables.trans {a b c : Scope} (h : a.SameTables b) (h' : b.SameTables c) :
    a.SameTables c where
  schema := h'.schema.trans h.schema
  localSchema := h'.localSchema.trans h.localSchema

theorem Scope.SameTables.visibleTables_eq {scope scope' : Scope} (h : scope.SameTables scope') :
    scope'.visibleTables = scope.visibleTables := by
  rw [visibleTables, visibleTables, h.schema, h.localSchema]

theorem Scope.SameTables.findTable?_eq {scope scope' : Scope} (h : scope.SameTables scope')
    (key : Key) : scope'.findTable? key = scope.findTable? key := by
  rw [findTable?, findTable?, h.visibleTables_eq]

variable {R : Node → Payload → Prop}

namespace Link.Alike

variable {link link' : Link}

theorem opens_iff (h : Alike R link link') : link'.Opens ↔ link.Opens := by
  rw [Opens, Opens, h.parent.tag, h.child.tag]

theorem ownSchema?_eq (names : KeepsNames R) (h : Alike R link link') :
    link'.ownSchema? = link.ownSchema? := by
  unfold ownSchema?
  rw [h.parent.tag, h.child.tag, h.parent.ownSchema_eq names,
    Node.Alike.cteTables_eq names h.before]

theorem sameTables_enter (names : KeepsNames R) (h : Alike R link link') {scope scope' : Scope}
    (same : scope.SameTables scope') : (scope.enter link).SameTables (scope'.enter link') where
  schema := same.schema
  localSchema := by
    show link'.ownSchema?.getD _ = link.ownSchema?.getD _
    rw [h.ownSchema?_eq names, same.localSchema]

theorem enter_eq (names : KeepsNames R) (picks : KeepsPicks R) (h : Alike R link link')
    (scope : Scope) : scope.enter link' = scope.enter link := by
  unfold Scope.enter
  rw [h.ownSchema?_eq names, h.parent.offered_eq names picks]
  simp only [h.opens_iff]

end Link.Alike

namespace Node.Alike

/-- The links to the children of nodes that are alike. -/
theorem linksAfter {n n' : Node} (h : Alike R n n') {before before' ns ns' : List Node}
    (front : List.Forall₂ (Alike R) before before') (hs : List.Forall₂ (Alike R) ns ns') :
    List.Forall₂ (Link.Alike R) (n.linksAfter before ns) (n'.linksAfter before' ns') := by
  induction hs generalizing before before' with
  | nil => exact .nil
  | cons same _ ih => exact .cons ⟨h, front, same⟩ (ih (List.rel_append front (.cons same .nil)))

section Carried

/- A relation between scopes that every step down carries on. -/
variable {S : Scope → Scope → Prop} (carried : ∀ link link' scope scope',
  Link.Alike R link link' → S scope scope' → S (scope.enter link) (scope'.enter link'))
include carried

theorem scopedChildren {n n' : Node} (h : Alike R n n') {scope scope' : Scope}
    (hs : S scope scope') :
    List.Forall₂ (fun entry entry' => Alike R entry.1 entry'.1 ∧ S entry.2 entry'.2)
      (n.scopedChildren scope) (n'.scopedChildren scope') := by
  rw [scopedChildren_eq, scopedChildren_eq, List.forall₂_map_left_iff, List.forall₂_map_right_iff]
  exact (h.linksAfter .nil h.children).imp fun _ _ links =>
    ⟨links.child, carried _ _ _ _ links hs⟩

theorem scopedPreorder {n n' : Node} (h : Alike R n n') {scope scope' : Scope}
    (hs : S scope scope') :
    List.Forall₂ (fun entry entry' => Alike R entry.1 entry'.1 ∧ S entry.2 entry'.2)
      (n.scopedPreorder scope) (n'.scopedPreorder scope') := by
  induction n using children_induction generalizing n' scope scope' with
  | step n ih =>
    rw [scopedPreorder_eq, scopedPreorder_eq]
    refine .cons ⟨h, hs⟩ ?_
    refine List.rel_flatMap (forall₂_mem (h.scopedChildren carried hs)) ?_
    rintro ⟨c, inner⟩ ⟨c', inner'⟩ ⟨hc, -, same, hs⟩
    have mem : c ∈ n.children := by
      rw [← map_fst_scopedChildren scope n]
      exact List.mem_map_of_mem hc
    exact ih c mem same hs

theorem scopeBelow {n n' : Node} (h : Alike R n n') {scope scope' : Scope}
    (hs : S scope scope') (keys : List Key) :
    Option.Rel S (n.scopeBelow scope keys) (n'.scopeBelow scope' keys) := by
  induction keys generalizing n n' scope scope' with
  | nil =>
    rw [Node.scopeBelow, Node.scopeBelow]
    exact .some hs
  | cons key keys ih =>
    have found := forall₂_find? (p := (·.1.key = key)) (q := (·.1.key = key))
      (h.scopedChildren carried hs) fun entry entry' same => by simp [same.1.key]
    rw [Node.scopeBelow, Node.scopeBelow]
    generalize (n.scopedChildren scope).find? (·.1.key = key) = x at found
    generalize (n'.scopedChildren scope').find? (·.1.key = key) = y at found
    cases found with
    | none => exact .none
    | some same => exact ih same.1 same.2

theorem scopeAt {n n' : Node} (h : Alike R n n') {scope scope' : Scope}
    (hs : S scope scope') (path : List Key) :
    Option.Rel S (n.scopeAt scope path) (n'.scopeAt scope' path) := by
  cases path with
  | nil => exact .none
  | cons key keys =>
    rw [Node.scopeAt, Node.scopeAt, h.key]
    split
    · exact h.scopeBelow carried hs keys
    · exact .none

/-- Both maps have entries at the same keys. -/
theorem get?_scopes {n n' : Node} (h : Alike R n n') {scope scope' : Scope}
    (hs : S scope scope') (key : Key) :
    Option.Rel S ((n.scopes scope).get? key) ((n'.scopes scope').get? key) := by
  have entries := List.rel_reverse (h.scopedPreorder carried hs)
  rw [scopes, scopes, KeyMap.get?_ofList, KeyMap.get?_ofList, ← List.map_reverse,
    ← List.map_reverse]
  generalize (n.scopedPreorder scope).reverse = found at entries
  generalize (n'.scopedPreorder scope').reverse = found' at entries
  induction entries with
  | nil => exact .none
  | cons same _ ih =>
    rw [List.map_cons, List.map_cons, List.lookup_cons, List.lookup_cons, same.1.key]
    split
    · exact .some same.2
    · exact ih

end Carried

/-! ## The scopes of trees that are alike -/

variable {n n' : Node}

section Equal

variable (names : KeepsNames R) (picks : KeepsPicks R) (h : Alike R n n') (base : Scope)
include names picks h

theorem scopedPreorder_of_keeps :
    List.Forall₂ (fun entry entry' => Alike R entry.1 entry'.1 ∧ entry.2 = entry'.2)
      (n.scopedPreorder base) (n'.scopedPreorder base) := by
  refine h.scopedPreorder (S := (· = ·)) ?_ rfl
  rintro link link' scope _ same rfl
  exact (same.enter_eq names picks scope).symm

/-- Where aliases keep their texts and tables their picks, the scopes are the same. -/
theorem scopes_eq : n'.scopes base = n.scopes base := by
  rw [scopes, scopes]
  refine congrArg KeyMap.ofList (map_eq_map_iff_forall₂.2 ?_)
  refine (h.scopedPreorder_of_keeps names picks base).imp ?_
  rintro ⟨m, scope⟩ ⟨m', _⟩ ⟨same, rfl⟩
  exact congrArg (·, scope) same.key

theorem scopeAt_eq (path : List Key) : n'.scopeAt base path = n.scopeAt base path := by
  have found : Option.Rel (· = ·) (n.scopeAt base path) (n'.scopeAt base path) := by
    refine h.scopeAt ?_ rfl path
    rintro link link' scope _ same rfl
    exact (same.enter_eq names picks scope).symm
  generalize n.scopeAt base path = x at found
  generalize n'.scopeAt base path = y at found
  cases found with
  | none => rfl
  | some same => rw [same]

end Equal

section Tables

theorem map_visibleTables_eq {x y : Option Scope} (h : Option.Rel Scope.SameTables x y) :
    y.map (·.visibleTables) = x.map (·.visibleTables) := by
  cases h with
  | none => rfl
  | some same => rw [Option.map_some, Option.map_some, same.visibleTables_eq]

variable (names : KeepsNames R) (h : Alike R n n') (base : Scope)
include names h

theorem scopedPreorder_of_keepsNames :
    List.Forall₂ (fun entry entry' => Alike R entry.1 entry'.1 ∧ entry.2.SameTables entry'.2)
      (n.scopedPreorder base) (n'.scopedPreorder base) :=
  h.scopedPreorder (fun _ _ _ _ same => same.sameTables_enter names) ⟨rfl, rfl⟩

/-- Where aliases keep their texts, the same tables are in scope. -/
theorem visibleTables_scopeAt (path : List Key) :
    (n'.scopeAt base path).map (·.visibleTables) = (n.scopeAt base path).map (·.visibleTables) :=
  map_visibleTables_eq
    (h.scopeAt (fun _ _ _ _ same => same.sameTables_enter names) ⟨rfl, rfl⟩ path)

theorem visibleTables_scopes (key : Key) :
    ((n'.scopes base).get? key).map (·.visibleTables) =
      ((n.scopes base).get? key).map (·.visibleTables) :=
  map_visibleTables_eq
    (h.get?_scopes (fun _ _ _ _ same => same.sameTables_enter names) ⟨rfl, rfl⟩ key)

end Tables

end Node.Alike

end QueryTree
