import QueryTree.Document
import QueryTree.Proofs.PathLens

/-! Edits at places of which none lies within another. Paths that part ways stay
apart whatever is put at the end of either, provided that keys are kept, so edits
of one tree can be carried out in any order and each is found in the result. -/

namespace QueryTree

/-- Neither list of keys leads through the end of the other. -/
def Apart (p q : List Key) : Prop := ¬ p <+: q ∧ ¬ q <+: p

instance (p q : List Key) : Decidable (Apart p q) := inferInstanceAs (Decidable (_ ∧ _))

theorem Apart.symm {p q : List Key} (h : Apart p q) : Apart q p := ⟨h.2, h.1⟩

theorem Apart.tail {key : Key} {p q : List Key} (h : Apart (key :: p) (key :: q)) : Apart p q :=
  ⟨fun hp => h.1 (List.cons_prefix_cons.2 ⟨rfl, hp⟩),
    fun hq => h.2 (List.cons_prefix_cons.2 ⟨rfl, hq⟩)⟩

/-- Lists that are apart have the same keys up to a place where both go on, with
different keys. -/
theorem Apart.induction {motive : (p q : List Key) → Apart p q → Prop}
    (fork : ∀ key p other q (h : Apart (key :: p) (other :: q)), other ≠ key → motive _ _ h)
    (step : ∀ key p q (h : Apart (key :: p) (key :: q)), motive p q h.tail → motive _ _ h) :
    ∀ p q h, motive p q h
  | [], _, h => absurd List.nil_prefix h.1
  | _, [], h => absurd List.nil_prefix h.2
  | key :: p, other :: q, h => by
    by_cases same : other = key
    · subst same
      exact step other p q h (Apart.induction fork step p q h.tail)
    · exact fork key p other q h same

namespace Node

variable {n a b r s : Node} {p q : List Key}

/-! ## Two places -/

/-- What is located elsewhere, or missing there, stays so. -/
theorem locateBelow_of_apart (apart : Apart p q) (keyed : Keyed r p)
    (h : replaceBelow r n p = .ok a) : a.locateBelow q = n.locateBelow q := by
  induction p, q, apart using Apart.induction generalizing n a with
  | fork key p other q apart hne =>
    obtain ⟨c, c', hc, hr, rfl⟩ := replaceBelow_cons_eq_ok.1 h
    have kept : (n.setChild key c').child other = n.child other :=
      child_setChild_of_ne (keyed.key_child hc hr) hne
    show (n.setChild key c').locateBelow (other :: q) = _
    rw [locateBelow, locateBelow, kept]
    rfl
  | step key p q apart ih =>
    obtain ⟨c, c', hc, hr, rfl⟩ := replaceBelow_cons_eq_ok.1 h
    have found : (n.setChild key c').child key = some c' :=
      child_setChild hc (keyed.key_child hc hr)
    rw [locateBelow_of_child hc, ← ih keyed.tail hr]
    exact locateBelow_of_child found q

/-- Two edits lead to the same tree in either order. -/
theorem replaceBelow_comm (apart : Apart p q) (keyed : Keyed r p) (keyed' : Keyed s q)
    (h : replaceBelow r n p = .ok a) (h' : replaceBelow s n q = .ok b) :
    replaceBelow s a q = replaceBelow r b p := by
  induction p, q, apart using Apart.induction generalizing n a b with
  | fork key p other q apart hne =>
    obtain ⟨c, c', hc, hr, rfl⟩ := replaceBelow_cons_eq_ok.1 h
    obtain ⟨d, d', hd, hs, rfl⟩ := replaceBelow_cons_eq_ok.1 h'
    have hk : c'.key = key := keyed.key_child hc hr
    have hk' : d'.key = other := keyed'.key_child hd hs
    have found : (n.setChild key c').child other = some d := by
      rw [child_setChild_of_ne hk hne, hd]
    have found' : (n.setChild other d').child key = some c := by
      rw [child_setChild_of_ne hk' hne.symm, hc]
    show replaceBelow s (n.setChild key c') _ = replaceBelow r (n.setChild other d') _
    rw [replaceBelow_of_child found, replaceBelow_of_child found', hs, hr, Except.map,
      Except.map, setChild_comm hk hk' hne.symm]
  | step key p q apart ih =>
    obtain ⟨c, c', hc, hr, rfl⟩ := replaceBelow_cons_eq_ok.1 h
    obtain ⟨d, d', hd, hs, rfl⟩ := replaceBelow_cons_eq_ok.1 h'
    obtain rfl : c = d := Option.some.inj (hc.symm.trans hd)
    have hk : c'.key = key := keyed.key_child hc hr
    have hk' : d'.key = key := keyed'.key_child hc hs
    have put : (n.setChild key c').setChild key = (n.setChild key d').setChild key :=
      funext fun last => by rw [setChild_setChild hk, setChild_setChild hk']
    show replaceBelow s (n.setChild key c') _ = replaceBelow r (n.setChild key d') _
    rw [replaceBelow_of_child (child_setChild hc hk), put,
      replaceBelow_of_child (child_setChild hc hk'), ih keyed.tail keyed'.tail hr hs]

end Node

/-! ## Requests -/

namespace Request

variable {root new : Node} {request other : Request}

/-- The request replaces a node below the root by one with the same key. -/
structure Lands (request : Request) (root : Node) : Prop where
  located : ∃ t, root.locate request.path = .ok t
  below : 2 ≤ request.path.length
  keyed : request.path.getLast? = some request.replacement.key

theorem Lands.keyed_tail (h : request.Lands root) :
    Node.Keyed request.replacement request.path.tail := Node.keyed_tail (.inr h.keyed)

theorem apply_eq_ok : request.apply root = .ok new ↔
    request.path ≠ [] ∧ Node.replaceBelow request.replacement root request.path.tail = .ok new := by
  rw [apply]
  cases request.operation
  exact Node.replaceAt_eq_ok

theorem Lands.exists_apply (h : request.Lands root) : ∃ new, request.apply root = .ok new := by
  obtain ⟨new, replaced⟩ := Node.exists_replaceAt_iff.2 h.located
  exact ⟨new, apply_eq_ok.2 (Node.replaceAt_eq_ok.1 replaced)⟩

theorem Lands.locate_self (h : request.Lands root) (done : request.apply root = .ok new) :
    new.locate request.path = .ok request.replacement := by
  obtain ⟨nonempty, replaced⟩ := apply_eq_ok.1 done
  have found := Node.locateBelow_replaceBelow h.keyed_tail replaced
  exact Node.locate_eq_ok.2 ⟨nonempty, Node.locateBelow_eq_ok.1 found⟩

/-- A request leaves alone what is at other places, whether there is a node or none. -/
theorem Lands.locate_of_apart (h : request.Lands root) (done : request.apply root = .ok new)
    {q : List Key} (apart : Apart request.path.tail q.tail) : new.locate q = root.locate q := by
  cases q with
  | nil => rfl
  | cons first keys =>
    exact Node.locateBelow_of_apart apart h.keyed_tail (apply_eq_ok.1 done).2

theorem Lands.of_apart (h : request.Lands root) (done : request.apply root = .ok new)
    (h' : other.Lands root) (apart : Apart request.path.tail other.path.tail) :
    other.Lands new where
  located := by
    rw [h.locate_of_apart done apart]
    exact h'.located
  below := h'.below
  keyed := h'.keyed

theorem Lands.apply_comm (h : request.Lands root) (h' : other.Lands root)
    (apart : Apart request.path.tail other.path.tail) {a b : Node}
    (done : request.apply root = .ok a) (done' : other.apply root = .ok b) :
    other.apply a = request.apply b := by
  obtain ⟨final, last⟩ := (h.of_apart done h' apart).exists_apply
  rw [last]
  obtain ⟨-, replaced⟩ := apply_eq_ok.1 last
  refine (apply_eq_ok.2 ⟨(apply_eq_ok.1 done).1, ?_⟩).symm
  rw [← replaced]
  exact (Node.replaceBelow_comm apart h.keyed_tail h'.keyed_tail (apply_eq_ok.1 done).2
    (apply_eq_ok.1 done').2).symm

/-- Carries out requests one after another, until one fails. -/
def applyAll (root : Node) (requests : List Request) : Except EditError Node :=
  requests.foldlM (fun root request => request.apply root) root

theorem applyAll_cons (done : request.apply root = .ok new) (requests : List Request) :
    applyAll root (request :: requests) = applyAll new requests := by
  rw [applyAll, List.foldlM_cons, done]
  rfl

end Request

/-- Requests made for one tree, at places of which none lies within another. -/
structure Independent (root : Node) (requests : List Request) : Prop where
  lands : ∀ request ∈ requests, request.Lands root
  apart : requests.Pairwise fun a b => Apart a.path.tail b.path.tail

namespace Independent

variable {root new : Node} {request : Request} {requests order : List Request}

theorem perm (h : Independent root requests) (perm : requests.Perm order) :
    Independent root order where
  lands request hm := h.lands request (perm.mem_iff.2 hm)
  apart := (perm.pairwise_iff Apart.symm).1 h.apart

/-- After one of the requests the others can still be made. -/
theorem tail (h : Independent root (request :: requests)) (done : request.apply root = .ok new) :
    Independent new requests where
  lands other hm := by
    obtain ⟨apart, -⟩ := List.pairwise_cons.1 h.apart
    exact (h.lands request List.mem_cons_self).of_apart done
      (h.lands other (List.mem_cons_of_mem _ hm)) (apart other hm)
  apart := (List.pairwise_cons.1 h.apart).2

theorem head (h : Independent root (request :: requests)) : ∃ new, request.apply root = .ok new :=
  (h.lands request List.mem_cons_self).exists_apply

/-- All requests succeed, and what is apart from all of them stays. -/
theorem applyAll_ok (h : Independent root requests) :
    ∃ final, Request.applyAll root requests = .ok final ∧
      (∀ q : List Key, (∀ request ∈ requests, Apart request.path.tail q.tail) →
        final.locate q = root.locate q) ∧
      ∀ request ∈ requests, final.locate request.path = .ok request.replacement := by
  induction requests generalizing root with
  | nil => exact ⟨root, rfl, fun q _ => rfl, by simp⟩
  | cons request requests ih =>
    obtain ⟨new, done⟩ := h.head
    obtain ⟨final, all, kept, found⟩ := ih (h.tail done)
    have lands := h.lands request List.mem_cons_self
    have apart := (List.pairwise_cons.1 h.apart).1
    refine ⟨final, (Request.applyAll_cons done requests).trans all, ?_, ?_⟩
    · intro q away
      rw [kept q fun other hm => away other (List.mem_cons_of_mem _ hm)]
      exact lands.locate_of_apart done (away request List.mem_cons_self)
    · rw [List.forall_mem_cons]
      refine ⟨?_, found⟩
      rw [kept request.path fun other hm => (apart other hm).symm]
      exact lands.locate_self done

/-- The order of the requests does not matter. -/
theorem applyAll_perm (h : Independent root requests) (perm : requests.Perm order) :
    Request.applyAll root requests = Request.applyAll root order := by
  induction perm generalizing root with
  | nil => rfl
  | cons request _ ih =>
    obtain ⟨new, done⟩ := h.head
    rw [Request.applyAll_cons done, Request.applyAll_cons done]
    exact ih (h.tail done)
  | swap a b rest =>
    -- `b` comes first here, and `a` once they are swapped
    have landsA : a.Lands root := h.lands a (by simp)
    have landsB : b.Lands root := h.lands b (by simp)
    obtain ⟨newA, doneA⟩ := landsA.exists_apply
    obtain ⟨newB, doneB⟩ := landsB.exists_apply
    have apart : Apart b.path.tail a.path.tail := (List.pairwise_cons.1 h.apart).1 a (by simp)
    obtain ⟨both, last⟩ := (landsB.of_apart doneB landsA apart).exists_apply
    have last' : b.apply newA = .ok both := by
      rw [← landsB.apply_comm landsA apart doneB doneA, last]
    rw [Request.applyAll_cons doneB, Request.applyAll_cons last, Request.applyAll_cons doneA,
      Request.applyAll_cons last']
  | trans first _ ih ih' => exact (ih h).trans (ih' (h.perm first))

end Independent

/-! ## Documents -/

namespace Document

/-- Dispatches requests one after another, until one fails. -/
def dispatchAll (doc : Document) (requests : List Request) : Except EditError Document :=
  requests.foldlM (fun doc request => (doc.dispatch request).value) doc

theorem dispatchAll_eq (doc : Document) (requests : List Request) :
    doc.dispatchAll requests =
      (Request.applyAll doc.root requests).map fun root => { doc with root } := by
  induction requests generalizing doc with
  | nil => rfl
  | cons request requests ih =>
    rw [dispatchAll, Request.applyAll, List.foldlM_cons, List.foldlM_cons, dispatch_value]
    cases request.apply doc.root with
    | error missing => rfl
    | ok root => exact ih { doc with root }

/-- Independent requests succeed in every order, with one and the same result, in
which each path locates what was put there. A single request leaves alone what any
path apart from its own locates, or fails to locate. -/
theorem independent_edits_commute (doc : Document) :
    (∀ requests, Independent doc.root requests → ∃ final : Node,
      (∀ order, requests.Perm order → doc.dispatchAll order = .ok { doc with root := final }) ∧
      ∀ request ∈ requests, final.locate request.path = .ok request.replacement) ∧
    ∀ request, request.Lands doc.root → ∃ new : Node,
      (doc.dispatch request).value = .ok { doc with root := new } ∧
      ∀ q, Apart request.path.tail q.tail → new.locate q = doc.root.locate q := by
  refine ⟨fun requests independent => ?_, fun request lands => ?_⟩
  · obtain ⟨final, all, -, found⟩ := independent.applyAll_ok
    refine ⟨final, fun order perm => ?_, found⟩
    rw [dispatchAll_eq, ← independent.applyAll_perm perm, all, Except.map]
  · obtain ⟨new, done⟩ := lands.exists_apply
    refine ⟨new, ?_, fun q => lands.locate_of_apart done⟩
    rw [dispatch_value, done, Except.map]

/-- A column that has two aliases with one key. -/
def labelled : Document :=
  ofRoot
    { key := ⟨"column"⟩, tag := .column, kids := some [
        { key := ⟨"var"⟩, tag := .var },
        { key := ⟨"name"⟩, tag := .aliasName },
        { key := ⟨"name"⟩, tag := .aliasName, data := { aliasText := some "old" } }] }
    {} .sequential {}

def relabel : Request where
  path := [⟨"column"⟩, ⟨"name"⟩]
  replacement := { key := ⟨"name"⟩, tag := .aliasName, data := { aliasText := some "day" } }

def pickDay : Request where
  path := [⟨"column"⟩, ⟨"var"⟩]
  replacement := { key := ⟨"var"⟩, tag := .var, data := { selected := some ⟨"orders.day"⟩ } }

theorem labelled_edits :
    Independent labelled.root [relabel, pickDay] ∧
    (∃ final : Node, labelled.dispatchAll [relabel, pickDay] = .ok { labelled with root := final } ∧
      labelled.dispatchAll [pickDay, relabel] = .ok { labelled with root := final } ∧
      final.locate relabel.path = .ok relabel.replacement) ∧
    ∃ new : Node, (labelled.dispatch relabel).value = .ok { labelled with root := new } ∧
      new.locate pickDay.path = .ok { key := ⟨"var"⟩, tag := .var } := by
  obtain ⟨anyOrder, single⟩ := independent_edits_commute labelled
  have first : relabel.Lands labelled.root := ⟨⟨_, rfl⟩, by decide, rfl⟩
  have second : pickDay.Lands labelled.root := ⟨⟨_, rfl⟩, by decide, rfl⟩
  have independent : Independent labelled.root [relabel, pickDay] := by
    refine ⟨?_, by decide⟩
    simp [first, second]
  obtain ⟨final, orders, found⟩ := anyOrder _ independent
  refine ⟨independent, ⟨final, orders _ (.refl _), orders _ (.swap _ _ _), ?_⟩, ?_⟩
  · exact found relabel List.mem_cons_self
  · obtain ⟨new, done, kept⟩ := single relabel first
    exact ⟨new, done, kept pickDay.path (by decide)⟩

end Document

end QueryTree
