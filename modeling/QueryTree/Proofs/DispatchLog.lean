import QueryTree.Proofs.IndependentEdits

/-! What a dispatch logs, and what it leaves behind. The log has one event for each step
down the path that finds a child, whether the edit is made in the end or not, so it
tells how far a request got that fails. Such a request leaves the document as it is: a
run of requests, some of which fail, ends as the run of the others. -/

namespace QueryTree

namespace Node

/-- The steps down from a node that keys lead, one for each key, in order, to the first
child with the key, up to the first key that no child has. -/
structure LeadsDown (root : Node) (keys : List Key) (steps : List Descent) : Prop where
  taken : ∀ i step, steps[i]? = some step → ∃ node child key,
    root.descend (keys.take i) = some node ∧ keys[i]? = some key ∧
      node.child key = some child ∧ step = ⟨node.key, child.key, keys.length - i⟩
  stopped : ∀ key, keys[steps.length]? = some key → ∃ node,
    root.descend (keys.take steps.length) = some node ∧ node.child key = none

variable {n m c : Node} {key : Key} {keys front : List Key}

theorem descentsBelow_of_child (h : n.child key = some c) (keys : List Key) :
    n.descentsBelow (key :: keys) = ⟨n.key, key, keys.length + 1⟩ :: c.descentsBelow keys := by
  rw [descentsBelow, h]

theorem descentsBelow_of_no_child (h : n.child key = none) (keys : List Key) :
    n.descentsBelow (key :: keys) = [] := by
  rw [descentsBelow, h]

theorem leadsDown_descentsBelow (n : Node) (keys : List Key) :
    n.LeadsDown keys (n.descentsBelow keys) := by
  induction keys generalizing n with
  | nil => exact ⟨nofun, nofun⟩
  | cons key keys ih =>
    cases hc : n.child key with
    | none =>
      rw [descentsBelow_of_no_child hc]
      refine ⟨nofun, fun missing h => ?_⟩
      obtain rfl := Option.some.inj h
      exact ⟨n, rfl, hc⟩
    | some c =>
      obtain ⟨taken, stopped⟩ := ih c
      rw [descentsBelow_of_child hc]
      refine ⟨fun i step h => ?_, fun missing h => ?_⟩
      · cases i with
        | zero =>
          obtain rfl := Option.some.inj h
          refine ⟨n, c, key, rfl, rfl, hc, ?_⟩
          rw [child_key hc]
          rfl
        | succ i =>
          obtain ⟨node, child, next, reached, hk, found, rfl⟩ := taken i step h
          refine ⟨node, child, next, ?_, hk, found, ?_⟩
          · exact descend_cons_eq_some.2 ⟨c, hc, reached⟩
          · rw [List.length_cons, Nat.add_sub_add_right]
      · obtain ⟨node, reached, absent⟩ := stopped missing h
        exact ⟨node, descend_cons_eq_some.2 ⟨c, hc, reached⟩, absent⟩

/-- The keys that lead to a node are a step each; the rest goes on from there. -/
theorem length_descentsBelow_append (h : n.descend front = some m) (back : List Key) :
    (n.descentsBelow (front ++ back)).length = front.length + (m.descentsBelow back).length := by
  induction front generalizing n with
  | nil =>
    obtain rfl := Option.some.inj h
    simp
  | cons key front ih =>
    obtain ⟨c, hc, hm⟩ := descend_cons_eq_some.1 h
    rw [List.cons_append, descentsBelow_of_child hc, List.length_cons, ih hm, List.length_cons]
    omega

theorem length_descentsBelow (h : n.descend keys = some m) :
    (n.descentsBelow keys).length = keys.length := by
  simpa [descentsBelow] using length_descentsBelow_append h []

/-- Every step is for a key before the one at which the steps end. -/
theorem LeadsDown.lt_depth {root : Node} {steps : List Descent} (h : root.LeadsDown keys steps)
    {step : Descent} (hs : step ∈ steps) : keys.length - steps.length < step.depth := by
  obtain ⟨i, hi⟩ := List.mem_iff_getElem?.1 hs
  obtain ⟨_, _, key, -, hk, -, rfl⟩ := h.taken i step hi
  have before : i < steps.length := (List.getElem?_eq_some_iff.1 hi).1
  have within : i < keys.length := (List.getElem?_eq_some_iff.1 hk).1
  show keys.length - steps.length < keys.length - i
  omega

end Node

/-! ## One dispatch -/

namespace Document

/-- What is logged before the outcome of a request is known. -/
def progress (request : Request) (steps : List Descent) : List Log.Event :=
  .dispatching request.operation request.path.getLast? request.path.length ::
    steps.map .descending

/-- How a request that takes some steps down may end, and what is logged until then. -/
inductive Ends (doc : Document) (request : Request) (steps : List Descent) :
    Except EditError Document → List Log.Event → Prop
  | done {new : Node} (made : request.apply doc.root = .ok new)
      (whole : steps.length = request.path.length - 1) :
      Ends doc request steps (.ok { doc with root := new })
        (progress request steps ++
          (new.violations.head?.map (.brokenShape new.violations.length)).toList)
  | noPath (empty : request.path = []) :
      Ends doc request steps (.error .emptyPath) (progress request steps)
  | noChild {deepest : Node} {key : Key}
      (reached : doc.root.descend (request.path.tail.take steps.length) = some deepest)
      (next : request.path[steps.length + 1]? = some key) (absent : deepest.child key = none)
      (unlogged : ∀ step ∈ steps, request.path.length - (steps.length + 1) < step.depth) :
      Ends doc request steps (.error (.noSuchChild deepest.key key)) (progress request steps)

theorem shapeEvents_eq (root : Node) :
    shapeEvents root =
      (root.violations.head?.map (.brokenShape root.violations.length)).toList := by
  rw [shapeEvents]
  cases root.violations <;> rfl

theorem dispatch_of_ok {doc : Document} {request : Request} {new : Node}
    (h : request.apply doc.root = .ok new) :
    doc.dispatch request =
      { value := .ok { doc with root := new }
        events := progress request (doc.root.descents request.path) ++ shapeEvents new
        left := { doc with root := new } } := by
  rw [dispatch, h]
  rfl

theorem dispatch_of_error {doc : Document} {request : Request} {error : EditError}
    (h : request.apply doc.root = .error error) :
    doc.dispatch request =
      { value := .error error
        events := progress request (doc.root.descents request.path)
        left := doc } := by
  rw [dispatch, h]
  rfl

theorem left_of_ok {doc next : Document} {request : Request}
    (h : (doc.dispatch request).value = .ok next) : (doc.dispatch request).left = next := by
  cases made : request.apply doc.root with
  | ok new =>
    rw [dispatch_of_ok made] at h ⊢
    exact Except.ok.inj h
  | error error =>
    rw [dispatch_of_error made] at h
    cases h

theorem left_of_error {doc : Document} {request : Request} {error : EditError}
    (h : (doc.dispatch request).value = .error error) : (doc.dispatch request).left = doc := by
  cases made : request.apply doc.root with
  | ok new =>
    rw [dispatch_of_ok made] at h
    cases h
  | error error => rw [dispatch_of_error made]

/-- A request that reaches its node takes a step for each key but the first. -/
theorem length_descents {root t : Node} {path : List Key} (located : root.locate path = .ok t) :
    (root.descents path).length = path.length - 1 := by
  obtain ⟨-, reached⟩ := Node.locate_eq_ok.1 located
  rw [Node.descents, Node.length_descentsBelow reached, List.length_tail]

theorem dispatch_ends (doc : Document) (request : Request) :
    Ends doc request (doc.root.descents request.path) (doc.dispatch request).value
      (doc.dispatch request).events := by
  cases made : request.apply doc.root with
  | ok new =>
    have replaced : doc.root.replaceAt request.path request.replacement = .ok new := made
    obtain ⟨t, located⟩ := Node.exists_replaceAt_iff.1 ⟨new, replaced⟩
    rw [dispatch_of_ok made, shapeEvents_eq]
    exact .done made (length_descents located)
  | error error =>
    have failed : doc.root.replaceAt request.path request.replacement = .error error := made
    have fails := Node.locate_eq_error.1 (Node.replaceAt_eq_error.1 failed)
    rw [dispatch_of_error made]
    generalize hp : request.path = path at fails
    cases fails with
    | empty => exact .noPath hp
    | @step first key front back deepest reached absent =>
      have missing := Node.child_eq_none absent
      have down := Node.leadsDown_descentsBelow doc.root (front ++ key :: back)
      have length : (doc.root.descents (first :: (front ++ key :: back))).length =
          front.length := by
        show (doc.root.descentsBelow (front ++ key :: back)).length = front.length
        rw [Node.length_descentsBelow_append reached, Node.descentsBelow_of_no_child missing]
        rfl
      refine .noChild ?_ ?_ missing fun step hs => ?_
      · rw [length, hp, List.tail_cons, List.take_left]
        exact reached
      · simp [length, hp]
      · have later := down.lt_depth hs
        rw [hp, List.length_cons, Nat.add_sub_add_right]
        exact later

end Document

/-! ## Whole runs -/

/-- What is done to a document from outside. -/
inductive Call where
  | dispatch (request : Request)
  | setSchema (schema : Schema)

namespace Call

/-- The document that a call makes, unless it fails. -/
def attempt (doc : Document) : Call → Except EditError Document
  | dispatch request => (doc.dispatch request).value
  | setSchema schema => .ok (doc.withSchema schema)

def request? : Call → Option Request
  | dispatch request => some request
  | setSchema _ => none

def schema? : Call → Option Schema
  | dispatch _ => none
  | setSchema schema => some schema

end Call

namespace Document

variable {doc next : Document} {call : Call} {error : EditError}

/-- The document that a call leaves behind. -/
def after (doc : Document) : Call → Document
  | .dispatch request => (doc.dispatch request).left
  | .setSchema schema => doc.withSchema schema

/-- The document that calls leave behind, one after another. -/
def afterAll (doc : Document) (calls : List Call) : Document := calls.foldl after doc

/-- The calls that succeed when all are made one after another. -/
def succeeding : Document → List Call → List Call
  | _, [] => []
  | doc, call :: calls =>
    match call.attempt doc with
    | .ok next => call :: succeeding next calls
    | .error _ => succeeding doc calls

theorem after_of_ok (h : call.attempt doc = .ok next) : doc.after call = next := by
  cases call with
  | dispatch request => exact left_of_ok h
  | setSchema schema => exact Except.ok.inj h

/-- A call that fails leaves what was there. -/
theorem after_of_error (h : call.attempt doc = .error error) : doc.after call = doc := by
  cases call with
  | dispatch request => exact left_of_error h
  | setSchema schema => cases h

theorem succeeding_of_ok (h : call.attempt doc = .ok next) (calls : List Call) :
    doc.succeeding (call :: calls) = call :: next.succeeding calls := by
  rw [succeeding, h]

theorem succeeding_of_error (h : call.attempt doc = .error error) (calls : List Call) :
    doc.succeeding (call :: calls) = doc.succeeding calls := by
  rw [succeeding, h]

theorem afterAll_cons (doc : Document) (call : Call) (calls : List Call) :
    doc.afterAll (call :: calls) = (doc.after call).afterAll calls := rfl

/-- The calls that succeed make the same document on their own, and none of them fails. -/
theorem succeeding_attempts (doc : Document) (calls : List Call) :
    (doc.succeeding calls).foldlM Call.attempt doc = .ok (doc.afterAll calls) := by
  induction calls generalizing doc with
  | nil => rfl
  | cons call calls ih =>
    rw [afterAll_cons]
    cases made : call.attempt doc with
    | ok next =>
      rw [succeeding_of_ok made, after_of_ok made, List.foldlM_cons, made]
      exact ih next
    | error error =>
      rw [succeeding_of_error made, after_of_error made]
      exact ih doc

/-- The tree is made by the requests among them, and the scope of the root by the last
schema that was set. -/
theorem afterAll_eq (doc : Document) (calls : List Call) : ∃ root,
    Request.applyAll doc.root ((doc.succeeding calls).filterMap Call.request?) = .ok root ∧
      doc.afterAll calls =
        { doc with
          root
          base := ((calls.filterMap Call.schema?).getLast?.map fun schema => { schema }).getD
            doc.base } := by
  induction calls generalizing doc with
  | nil => exact ⟨doc.root, rfl, rfl⟩
  | cons call calls ih =>
    cases call with
    | setSchema schema =>
      have made : (Call.setSchema schema).attempt doc = .ok (doc.withSchema schema) := rfl
      obtain ⟨root, applied, reached⟩ := ih (doc.withSchema schema)
      refine ⟨root, ?_, ?_⟩
      · rw [succeeding_of_ok made]
        exact applied
      · rw [afterAll_cons, after_of_ok made, reached,
          List.filterMap_cons_some (show (Call.setSchema schema).schema? = some schema from rfl),
          List.getLast?_cons]
        cases (calls.filterMap Call.schema?).getLast? <;> rfl
    | dispatch request =>
      cases made : request.apply doc.root with
      | ok new =>
        have attempted : (Call.dispatch request).attempt doc = .ok { doc with root := new } := by
          show (doc.dispatch request).value = _
          rw [dispatch_of_ok made]
        obtain ⟨root, applied, reached⟩ := ih { doc with root := new }
        refine ⟨root, ?_, ?_⟩
        · rw [succeeding_of_ok attempted]
          exact (Request.applyAll_cons made _).trans applied
        · rw [afterAll_cons, after_of_ok attempted, reached]
          rfl
      | error error =>
        have attempted : (Call.dispatch request).attempt doc = .error error := by
          show (doc.dispatch request).value = _
          rw [dispatch_of_error made]
        rw [succeeding_of_error attempted, afterAll_cons, after_of_error attempted]
        exact ih doc

/-- A request logs the way down that its path leads, as far as it goes, and how it ends.
If it fails, the document stays; if not, only the tree is another one. After any calls
the document is the one that those which succeed make on their own: the requests among
them make its tree, and the last schema that was set is the one of its base. -/
theorem dispatch_all_or_nothing (doc : Document) :
    (∀ request, ∃ steps, doc.root.LeadsDown request.path.tail steps ∧
      Ends doc request steps (doc.dispatch request).value (doc.dispatch request).events) ∧
    (∀ request error, (doc.dispatch request).value = .error error →
      (doc.dispatch request).left = doc) ∧
    (∀ request next, (doc.dispatch request).value = .ok next →
      (doc.dispatch request).left = next ∧
        ∃ new, request.apply doc.root = .ok new ∧ next = { doc with root := new }) ∧
    ∀ calls, (doc.succeeding calls).foldlM Call.attempt doc = .ok (doc.afterAll calls) ∧
      ∃ root,
        Request.applyAll doc.root ((doc.succeeding calls).filterMap Call.request?) = .ok root ∧
        doc.afterAll calls =
          { doc with
            root
            base := ((calls.filterMap Call.schema?).getLast?.map fun schema => { schema }).getD
              doc.base } := by
  refine ⟨fun request => ?_, fun request error failed => left_of_error failed,
    fun request next done => ⟨left_of_ok done, ?_⟩,
    fun calls => ⟨succeeding_attempts doc calls, afterAll_eq doc calls⟩⟩
  · exact ⟨_, doc.root.leadsDown_descentsBelow request.path.tail, dispatch_ends doc request⟩
  · rw [dispatch_value] at done
    cases made : request.apply doc.root with
    | ok new =>
      rw [made] at done
      exact ⟨new, rfl, (Except.ok.inj done).symm⟩
    | error error =>
      rw [made] at done
      cases done

/-- The variable of the column has no child of any name. -/
def relabelVar : Request where
  path := [⟨"column"⟩, ⟨"var"⟩, ⟨"name"⟩]
  replacement := relabel.replacement

/-- One step is taken and logged before the request fails; between others it makes no
difference. -/
theorem labelled_fails_below_var :
    (∃ steps, labelled.root.LeadsDown [⟨"var"⟩, ⟨"name"⟩] steps ∧
      Ends labelled relabelVar steps (.error (.noSuchChild ⟨"var"⟩ ⟨"name"⟩))
        [.dispatching .replace (some ⟨"name"⟩) 3, .descending ⟨⟨"column"⟩, ⟨"var"⟩, 2⟩]) ∧
    (labelled.dispatch relabelVar).left = labelled ∧
    (∃ new, (labelled.dispatch relabel).value = .ok { labelled with root := new } ∧
      (labelled.dispatch relabel).left = { labelled with root := new }) ∧
    [.setSchema {}, .dispatch relabel].foldlM Call.attempt labelled =
      .ok (labelled.afterAll
        [.dispatch relabelVar, .setSchema {}, .dispatch relabel, .dispatch relabelVar]) := by
  obtain ⟨logged, failing, succeeds, runs⟩ := dispatch_all_or_nothing labelled
  have fails : (labelled.dispatch relabelVar).value =
      .error (.noSuchChild ⟨"var"⟩ ⟨"name"⟩) := rfl
  have works : ∃ next, (labelled.dispatch relabel).value = .ok next := ⟨_, rfl⟩
  refine ⟨logged relabelVar, failing relabelVar _ fails, ?_, ?_⟩
  · obtain ⟨next, done⟩ := works
    obtain ⟨left, new, -, rfl⟩ := succeeds relabel next done
    exact ⟨new, done, left⟩
  · exact (runs [.dispatch relabelVar, .setSchema {}, .dispatch relabel, .dispatch relabelVar]).1

end Document

end QueryTree
