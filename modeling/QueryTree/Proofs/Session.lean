import QueryTree.Document
import QueryTree.Proofs.Change
import QueryTree.Proofs.ScopePasses

/-! Editing sessions. A session is a document with the supply that its fresh keys
come from; each step dispatches the request for one change to a node that the
current tree has. From a valid query, no step fails and none makes the document
invalid. -/

namespace QueryTree

structure Session where
  doc : Document
  supply : Supply

namespace Session

/-- Dispatches the request for a change to a node at a path. -/
def perform (s : Session) (path : List Key) (target : Node) (change : Change) :
    Except EditError Session :=
  let (request, supply) := change.request s.doc.keyKind target path s.supply
  (s.doc.dispatch request).value.map fun doc => { doc, supply }

/-- One change to a node as it is now. -/
inductive Step (s t : Session) : Prop
  | change {path : List Key} {target : Node} {change : Change}
      (found : s.doc.root.nodeAt path = some target) (suits : change.Suits target)
      (done : s.perform path target change = .ok t)

/-- Any number of changes, one after another. -/
inductive Runs (s : Session) : Session → Prop
  | refl : Runs s s
  | step {t u : Session} (run : Runs s t) (next : Step t u) : Runs s u

/-- A session on a new document. -/
def opened (schema : Schema) (kind : KeyKind) (style : Sql.Style) (supply : Supply) : Session :=
  let (doc, supply) := Document.fresh schema kind style supply
  { doc, supply }

/-- What an editor may start from: a valid query that uses none of the next keys, of which
it may draw a number. Random keys are taken not to repeat among them. -/
structure Ready (s : Session) (count : Nat) : Prop where
  query : s.doc.root.tag = .query
  valid : s.doc.root.violations = []
  unused : ∀ n ∈ s.doc.root.preorder, n.key ∉ s.supply.draws s.doc.keyKind count
  random : s.doc.keyKind = .uuid → (s.supply.randomBits count).Nodup

/-- What every change preserves, as long as there are fresh keys left for those to come. -/
structure Sound (s : Session) (count : Nat) : Prop where
  query : s.doc.root.tag = .query
  distinct : s.doc.root.Distinct
  conforms : s.doc.root.Conforms Tag.Admits
  unused : ∀ key ∈ s.doc.root.keys, key ∉ s.supply.draws s.doc.keyKind count
  apart : (s.supply.draws s.doc.keyKind count).Nodup

theorem Ready.sound {s : Session} {count : Nat} (h : Ready s count) : Sound s count where
  query := h.query
  distinct := (Node.violations_eq_nil.1 h.valid).1
  conforms := (Node.violations_eq_nil.1 h.valid).2
  unused := by
    intro key hk
    obtain ⟨n, hn, rfl⟩ := List.mem_map.1 hk
    exact h.unused n hn
  apart := Supply.nodup_draws h.random

/-! ## One step -/

/-- A change succeeds at every node of the tree, and replaces it by its revision. -/
theorem perform_eq {s : Session} {path : List Key} {target : Node} (change : Change)
    (found : s.doc.root.nodeAt path = some target) :
    ∃ keys new, s.doc.root.descend keys = some target ∧
      Node.replaceBelow (change.revise s.doc.keyKind target s.supply).1 s.doc.root keys = .ok new ∧
      s.perform path target change =
        .ok ⟨{ s.doc with root := new }, (change.revise s.doc.keyKind target s.supply).2⟩ := by
  obtain ⟨keys, rfl, hd⟩ := Node.nodeAt_eq_some.1 found
  obtain ⟨new, hr⟩ := Node.exists_replaceBelow hd (change.revise s.doc.keyKind target s.supply).1
  refine ⟨keys, new, hd, hr, ?_⟩
  have replaced : s.doc.root.replaceAt (s.doc.root.key :: keys)
      (change.revise s.doc.keyKind target s.supply).1 = .ok new :=
    Node.replaceAt_eq_ok.2 ⟨List.cons_ne_nil _ _, hr⟩
  rw [perform, Change.request_eq]
  dsimp only
  rw [Document.dispatch_value, Request.apply, replaced]
  rfl

/-- A step exchanges one node of the tree for its revision and leaves the rest of the
document as it is. -/
theorem Step.exists_revised {s t : Session} (step : Step s t) :
    ∃ keys target change new, Change.Suits target change ∧
      s.doc.root.descend keys = some target ∧
      Node.replaceBelow (change.revise s.doc.keyKind target s.supply).1 s.doc.root keys = .ok new ∧
      t = ⟨{ s.doc with root := new }, (change.revise s.doc.keyKind target s.supply).2⟩ := by
  obtain @⟨path, target, change, found, suits, done⟩ := step
  obtain ⟨keys, new, hd, hr, performed⟩ := perform_eq change found
  rw [performed] at done
  exact ⟨keys, target, change, new, suits, hd, hr, (Except.ok.inj done).symm⟩

/-- A step draws the first of the fresh keys and is sound for the others. -/
theorem Step.keeps_sound {s t : Session} (step : Step s t) : ∃ count,
    t.supply = s.supply.skip s.doc.keyKind count ∧
      ∀ more, Sound s (count + more) → Sound t more := by
  obtain ⟨keys, target, change, new, suits, hd, hr, rfl⟩ := step.exists_revised
  obtain ⟨count, revision, rest⟩ := change.revision suits s.doc.keyKind s.supply
  refine ⟨count, rest, fun more h => ?_⟩
  generalize change.revise s.doc.keyKind target s.supply = revised at hr revision rest
  obtain ⟨r, _⟩ := revised
  obtain rfl := rest
  have member := Node.descend_mem hd
  have tag := revision.tag_eq
  have distinct := h.distinct.of_mem member
  obtain ⟨apart, later, disjoint⟩ := Supply.nodup_draws_add.1 h.apart
  have unused : ∀ key ∈ s.doc.root.keys, key ∉ s.supply.draws s.doc.keyKind count ∧
      key ∉ (s.supply.skip s.doc.keyKind count).draws s.doc.keyKind more := by
    intro key hk
    rw [← not_or, ← Supply.mem_draws_add]
    exact h.unused key hk
  have below : ∀ key ∈ target.keys, key ∈ s.doc.root.keys := fun _ hk =>
    Node.keys_subset member hk
  obtain ⟨_, _, _, spliced⟩ := Node.keys_replaceBelow hd
  refine ⟨(spliced r new tag hr).1.trans h.query, ?_, ?_, ?_, later⟩
  · refine (h.distinct.replaceBelow hd tag hr).2 ⟨?_, fun key hk hroot => ?_⟩
    · exact revision.distinct distinct apart fun key hk => (unused key (below key hk)).1
    · exact (revision.keys hk).elim id fun drawn => absurd drawn (unused key hroot).1
  · exact (h.conforms.replaceBelow hd tag hr).2
      (revision.conforms distinct (h.conforms.of_mem member))
  · intro key hk
    rcases Node.mem_keys_replaceBelow hd tag hr hk with old | revised
    · exact (unused key old).2
    · rcases revision.keys revised with old | drawn
      · exact (unused key (below key old)).2
      · exact disjoint drawn

/-! ## Whole runs -/

/-- Every document of a run has the tables, the kind of keys and the style of the first one. -/
theorem Runs.doc_eq {s t : Session} (run : Runs s t) :
    t.doc = { s.doc with root := t.doc.root } := by
  induction run with
  | refl => rfl
  | step run next ih =>
    obtain ⟨keys, target, change, new, -, -, -, rfl⟩ := next.exists_revised
    rw [ih]

/-- A run draws a number of keys one after another. If these are fresh, it keeps what a step
from a sound session keeps. -/
theorem Runs.keeps {P : Session → Prop} {s t : Session} (run : Runs s t)
    (keep : ∀ {t u more}, Step t u → Sound t more → P t → P u) : ∃ count,
    t.supply = s.supply.skip s.doc.keyKind count ∧
      ∀ more, Sound s (count + more) → P s → Sound t more ∧ P t := by
  induction run with
  | refl =>
    refine ⟨0, (s.supply.skip_zero _).symm, fun more sound here => ⟨?_, here⟩⟩
    rwa [Nat.zero_add] at sound
  | @step t u run next ih =>
    obtain ⟨drawn, rest, kept⟩ := ih
    obtain ⟨count, later, sound⟩ := next.keeps_sound
    have kind : t.doc.keyKind = s.doc.keyKind := by rw [run.doc_eq]
    refine ⟨drawn + count, ?_, fun more fresh here => ?_⟩
    · rw [later, rest, kind, Supply.skip_skip]
    · rw [Nat.add_assoc] at fresh
      obtain ⟨between, reached⟩ := kept (count + more) fresh here
      exact ⟨sound more between, keep next between reached⟩

theorem ready_opened (schema : Schema) {kind : KeyKind} (style : Sql.Style) {supply : Supply}
    {count : Nat} (random : kind = .uuid → (supply.randomBits (Sketch.query.size + count)).Nodup) :
    Ready (opened schema kind style supply) count := by
  obtain ⟨apart, later, disjoint⟩ := Supply.nodup_draws_add.1 (Supply.nodup_draws random)
  have root : (opened schema kind style supply).doc.root =
      (Sketch.query.build kind supply).1 := rfl
  have kept : (opened schema kind style supply).doc.keyKind = kind := rfl
  have rest : (opened schema kind style supply).supply = supply.skip kind Sketch.query.size :=
    Sketch.build_supply kind Sketch.query supply
  have conforms : Sketch.query.Conforms Tag.Admits :=
    Sketch.defaults_conform _ (by simp [Sketch.defaults])
  refine ⟨?_, ?_, ?_, ?_⟩
  · rw [root, Sketch.tag_build]
    rfl
  · rw [root, Node.violations_eq_nil]
    exact ⟨Sketch.distinct_build_iff.2 apart, Sketch.build_conforms kind _ supply conforms⟩
  · rw [root, kept, rest]
    intro n hn
    exact disjoint (Sketch.mem_keys_build.1 (Node.key_mem_keys hn))
  · rw [kept, rest]
    rintro rfl
    exact Supply.nodup_draws_uuid.1 later

/-- Whatever is done to a document, no request fails. A run draws some number of keys. If it
starts from a new document, or from a valid one that uses none of these keys, and if random
keys do not repeat among them, then the document stays valid, has SQL text and gives every
node a scope of its own. -/
theorem runs_keep_documents_valid :
    (∀ schema kind style supply count,
      (kind = .uuid → (supply.randomBits (Sketch.query.size + count)).Nodup) →
      Ready (opened schema kind style supply) count) ∧
    ∀ s t, Runs s t →
      (∃ count, t.supply = s.supply.skip s.doc.keyKind count ∧ (Ready s count →
        t.doc.root.violations = [] ∧ (∃ text, t.doc.sql = .ok text) ∧
        t.doc.scopes.value.size = t.doc.root.preorder.length)) ∧
      ∀ path target change, t.doc.root.nodeAt path = some target →
        ∃ u, t.perform path target change = .ok u := by
  refine ⟨fun schema kind style supply count h => ready_opened schema style h,
    fun s t run => ⟨?_, fun path target change found => ?_⟩⟩
  · obtain ⟨count, rest, kept⟩ := run.keeps (P := fun _ => True) fun _ _ _ => trivial
    refine ⟨count, rest, fun ready => ?_⟩
    obtain ⟨sound, -⟩ := kept 0 ready.sound trivial
    refine ⟨Node.violations_eq_nil.2 ⟨sound.distinct, sound.conforms⟩, ?_,
      sound.distinct.size_scopes t.doc.base⟩
    refine ⟨Sql.ofQuery t.doc.style t.doc.root, ?_⟩
    rw [Document.sql, Sql.document, if_pos sound.query]
  · obtain ⟨keys, new, -, -, done⟩ := perform_eq change found
    exact ⟨_, done⟩

/-- The key that is the `i`-th to be drawn when each random number is its own index. -/
def drawnKey (kind : KeyKind) (i : Nat) : Key := Supply.upcoming { random := id } kind i

/-- A new document over no tables. -/
def blank (kind : KeyKind) : Session := opened {} kind {} { random := id }

def ctesPath (kind : KeyKind) : List Key := [drawnKey kind 6, drawnKey kind 0]

def emptyCtes (kind : KeyKind) : Node := { key := drawnKey kind 0, tag := .ctes, kids := some [] }

def namePath (kind : KeyKind) : List Key := ctesPath kind ++ [drawnKey kind 13, drawnKey kind 7]

def blankName (kind : KeyKind) : Node := { key := drawnKey kind 7, tag := .aliasName }

/-- The blank document with one CTE. -/
def withCte (kind : KeyKind) : Session :=
  let s := blank kind
  (s.perform (ctesPath kind) (emptyCtes kind) (.add .cte .back)).toOption.getD s

/-- The blank document with one CTE that has a name. -/
def withNamedCte (kind : KeyKind) : Session :=
  let s := withCte kind
  (s.perform (namePath kind) (blankName kind) (.edit (.setAlias "recent"))).toOption.getD s

/-- Performing a change is a step. -/
theorem step_perform {s : Session} {path : List Key} {target : Node} {change : Change}
    (found : s.doc.root.nodeAt path = some target) (suits : change.Suits target) :
    Step s ((s.perform path target change).toOption.getD s) := by
  obtain ⟨keys, new, -, -, done⟩ := perform_eq change found
  refine .change found suits (done.trans ?_)
  rw [done]
  rfl

theorem runs_withNamedCte (kind : KeyKind) : Runs (blank kind) (withNamedCte kind) := by
  have ctes : (blank kind).doc.root.nodeAt (ctesPath kind) = some (emptyCtes kind) := by
    cases kind <;> decide +kernel
  have name : (withCte kind).doc.root.nodeAt (namePath kind) = some (blankName kind) := by
    cases kind <;> decide +kernel
  have list : Change.Suits (emptyCtes kind) (.add .cte .back) := rfl
  have aliasName : Change.Suits (blankName kind) (.edit (.setAlias "recent")) := rfl
  exact .step (.step .refl (step_perform ctes list)) (step_perform name aliasName)

/-- Fourteen random keys are drawn for the document, seven of them in the run. -/
theorem named_cte_document_valid :
    Ready (blank .uuid) 7 ∧ Runs (blank .uuid) (withNamedCte .uuid) ∧
      (withNamedCte .uuid).doc.root.violations = [] ∧
      (∃ text, (withNamedCte .uuid).doc.sql = .ok text) ∧
      (withNamedCte .uuid).doc.scopes.value.size = 14 := by
  have ready := runs_keep_documents_valid.1 {} .uuid {} { random := id } 7 (by decide)
  obtain ⟨⟨count, rest, kept⟩, -⟩ :=
    runs_keep_documents_valid.2 _ _ (runs_withNamedCte .uuid)
  have drawn : (withNamedCte .uuid).supply.drawn = 14 := by decide +kernel
  obtain rfl : count = 7 := by
    rw [rest] at drawn
    exact Nat.add_left_cancel drawn
  obtain ⟨valid, text, scopes⟩ := kept ready
  refine ⟨ready, runs_withNamedCte .uuid, valid, text, scopes.trans ?_⟩
  decide +kernel

end Session

end QueryTree
