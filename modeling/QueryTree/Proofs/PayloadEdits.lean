import QueryTree.Gesture
import QueryTree.Proofs.PathLens
import Mathlib.Logic.Function.Iterate

/-! Edits of one payload. Each edit writes one field of the node that is at a path by
then, in the tree as it is by then. After any number of them nothing has changed but that
payload, and each of its fields has the value that was written last, or the old one. -/

namespace QueryTree

/-- The fields that edits of a payload write. -/
inductive PayloadField where
  | aliasText
  | isRaw
  | rawSql
  | selected
  | joinKind
deriving DecidableEq

namespace PayloadEdit

def field : PayloadEdit → PayloadField
  | setAlias _ => .aliasText
  | toggleRaw => .isRaw
  | setRawSql _ => .rawSql
  | select _ => .selected
  | setJoinKind _ => .joinKind

/-! ## What edits write -/

def alias? : PayloadEdit → Option String
  | setAlias text => some text
  | _ => none

def rawSql? : PayloadEdit → Option String
  | setRawSql sql => some sql
  | _ => none

def pick? : PayloadEdit → Option (Option Key)
  | select key => some key
  | _ => none

def joinKind? : PayloadEdit → Option JoinKind
  | setJoinKind kind => some kind
  | _ => none

end PayloadEdit

section LastWritten

variable {α : Type} (written : PayloadEdit → Option α)

/-- What the last of the edits that write something writes. -/
def lastWritten (edits : List PayloadEdit) : Option α := edits.reverse.findSome? written

theorem lastWritten_cons (edit : PayloadEdit) (edits : List PayloadEdit) :
    lastWritten written (edit :: edits) = (lastWritten written edits).or (written edit) := by
  simp [lastWritten, List.findSome?_append]

variable {field : PayloadField} (owns : ∀ edit, edit.field ≠ field → written edit = none)
include owns

/-- Edits of other fields do not matter. -/
theorem lastWritten_filter (edits : List PayloadEdit) :
    lastWritten written (edits.filter (·.field = field)) = lastWritten written edits := by
  induction edits with
  | nil => rfl
  | cons edit edits ih =>
    by_cases own : edit.field = field
    · rw [List.filter_cons_of_pos (by simpa using own), lastWritten_cons, lastWritten_cons, ih]
    · rw [List.filter_cons_of_neg (by simpa using own), lastWritten_cons, ih, owns edit own,
        Option.or_none]

theorem lastWritten_congr {edits edits' : List PayloadEdit}
    (same : edits.filter (·.field = field) = edits'.filter (·.field = field)) :
    lastWritten written edits = lastWritten written edits' := by
  rw [← lastWritten_filter written owns, same, lastWritten_filter written owns]

end LastWritten

namespace Payload

/-- The payload that edits make of one: each text, pick and kind is what was written last,
the raw flag has been switched as often as it was toggled, and the rest is left. -/
def afterEdits (data : Payload) (edits : List PayloadEdit) : Payload where
  aliasText := (lastWritten PayloadEdit.alias? edits).or data.aliasText
  isRaw := not^[edits.countP (·.field = .isRaw)] data.isRaw
  rawSql := (lastWritten PayloadEdit.rawSql? edits).or data.rawSql
  selected := (lastWritten PayloadEdit.pick? edits).getD data.selected
  joinKind := (lastWritten PayloadEdit.joinKind? edits).or data.joinKind
  columnNames := data.columnNames

theorem afterEdits_nil (data : Payload) : data.afterEdits [] = data := rfl

theorem afterEdits_cons (data : Payload) (edit : PayloadEdit) (edits : List PayloadEdit) :
    data.afterEdits (edit :: edits) = (edit.apply data).afterEdits edits := by
  cases edit <;>
    simp [afterEdits, lastWritten_cons, PayloadEdit.apply, PayloadEdit.field, PayloadEdit.alias?,
      PayloadEdit.rawSql?, PayloadEdit.pick?, PayloadEdit.joinKind?]

/-- Only the order of edits of one field matters. -/
theorem afterEdits_congr (data : Payload) {edits edits' : List PayloadEdit}
    (same : ∀ field : PayloadField,
      edits.filter (·.field = field) = edits'.filter (·.field = field)) :
    data.afterEdits edits = data.afterEdits edits' := by
  have text := lastWritten_congr PayloadEdit.alias?
    (by rintro ⟨⟩ <;> simp [PayloadEdit.field, PayloadEdit.alias?]) (same .aliasText)
  have sql := lastWritten_congr PayloadEdit.rawSql?
    (by rintro ⟨⟩ <;> simp [PayloadEdit.field, PayloadEdit.rawSql?]) (same .rawSql)
  have pick := lastWritten_congr PayloadEdit.pick?
    (by rintro ⟨⟩ <;> simp [PayloadEdit.field, PayloadEdit.pick?]) (same .selected)
  have kind := lastWritten_congr PayloadEdit.joinKind?
    (by rintro ⟨⟩ <;> simp [PayloadEdit.field, PayloadEdit.joinKind?]) (same .joinKind)
  rw [afterEdits, afterEdits, text, sql, pick, kind, List.countP_eq_length_filter,
    List.countP_eq_length_filter, same .isRaw]

theorem afterEdits_toggles (data : Payload) (n : Nat) :
    data.afterEdits (List.replicate (2 * n) .toggleRaw) = data := by
  induction n with
  | zero => rfl
  | succ n ih =>
    rw [Nat.mul_succ, List.replicate_succ, List.replicate_succ, afterEdits_cons, afterEdits_cons]
    simpa [PayloadEdit.apply] using ih

end Payload

namespace Node

/-! ## Gestures one after another -/

/-- Gestures at one path. Each is requested for the node that is there by then, and the
request is applied to the tree as it is by then. -/
def gestureEach (kind : KeyKind) (path : List Key) :
    List Gesture → Node → Supply → Except EditError (Node × Supply)
  | [], root, supply => .ok (root, supply)
  | gesture :: gestures, root, supply => do
    let target ← root.locate path
    let (request, rest) := gesture.request kind target path supply
    let new ← request.apply root
    gestureEach kind path gestures new rest

theorem gestureEach_cons {kind : KeyKind} {path : List Key} {root t new : Node}
    {gesture : Gesture} {supply : Supply} (located : root.locate path = .ok t)
    (replaced : root.replaceAt path (gesture.revise kind t supply).1 = .ok new)
    (gestures : List Gesture) :
    gestureEach kind path (gesture :: gestures) root supply =
      gestureEach kind path gestures new (gesture.revise kind t supply).2 := by
  rw [gestureEach, located]
  show (root.replaceAt path (gesture.revise kind t supply).1).bind _ = _
  rw [replaced]
  rfl

/-! ## Edits one after another -/

theorem withData_data (n : Node) : n.withData n.data = n := by
  cases n
  rfl

theorem gestureEach_edits {kind : KeyKind} {path : List Key} {root t : Node}
    (located : root.locate path = .ok t) (edits : List PayloadEdit) (supply : Supply) :
    gestureEach kind path (edits.map .edit) root supply =
      (root.replaceAt path (t.withData (t.data.afterEdits edits))).map (·, supply) := by
  induction edits generalizing root t with
  | nil =>
    rw [List.map_nil, gestureEach, Payload.afterEdits_nil, withData_data, replaceAt_self located]
    rfl
  | cons edit edits ih =>
    have key : (t.withData (edit.apply t.data)).key = t.key := rfl
    obtain ⟨new, replaced, found, newer⟩ := exists_put located key
    have edited : root.replaceAt path ((Gesture.edit edit).revise kind t supply).1 = .ok new :=
      replaced
    -- The next edit replaces what this one put, and finds the payload that this one left.
    have step := gestureEach_cons located edited (edits.map .edit)
    rw [List.map_cons, step, Payload.afterEdits_cons]
    exact (ih found).trans (by rw [newer]; rfl)

/-- Edits of the payload of the node at a path, one after another, leave the rest of the
tree as it is, and the keys that are left to draw. Their order counts within each field
only, and switching the raw flag an even number of times changes nothing. -/
theorem payload_edits_frame {root t : Node} {path : List Key}
    (located : root.locate path = .ok t) (kind : KeyKind) (supply : Supply) :
    (∀ edits : List PayloadEdit, ∃ new,
      root.replaceAt path (t.withData (t.data.afterEdits edits)) = .ok new ∧
      gestureEach kind path (edits.map .edit) root supply = .ok (new, supply)) ∧
    (∀ edits edits' : List PayloadEdit, (∀ field : PayloadField,
        edits.filter (·.field = field) = edits'.filter (·.field = field)) →
      gestureEach kind path (edits.map .edit) root supply =
        gestureEach kind path (edits'.map .edit) root supply) ∧
    ∀ n, gestureEach kind path (List.replicate (2 * n) (.edit .toggleRaw)) root supply =
      .ok (root, supply) := by
  refine ⟨fun edits => ?_, fun edits edits' same => ?_, fun n => ?_⟩
  · have key : (t.withData (t.data.afterEdits edits)).key = t.key := rfl
    obtain ⟨new, replaced, -⟩ := exists_put located key
    refine ⟨new, replaced, ?_⟩
    rw [gestureEach_edits located, replaced]
    rfl
  · rw [gestureEach_edits located, gestureEach_edits located, Payload.afterEdits_congr t.data same]
  · rw [← List.map_replicate, gestureEach_edits located, Payload.afterEdits_toggles, withData_data,
      replaceAt_self located]
    rfl

def seenVar : Node :=
  { key := ⟨"var"⟩, tag := .var, data := { selected := some ⟨"day"⟩ }, kids := some [] }

/-- A column that reads the day, by a variable with an empty list of children. -/
def seenColumn : Node :=
  { key := ⟨"seen"⟩, tag := .column, kids := some [
      seenVar, { key := ⟨"alias"⟩, tag := .aliasName, data := { aliasText := some "seen" } }] }

/-- The variable gets its SQL, loses its pick, and turns raw and back, in two orders. -/
theorem seenColumn_payload_edits :
    seenColumn.locate [⟨"seen"⟩, ⟨"var"⟩] = .ok seenVar ∧
    (∃ new, seenColumn.replaceAt [⟨"seen"⟩, ⟨"var"⟩]
        { seenVar with data := { rawSql := some "now()" } } = .ok new ∧
      gestureEach .sequential [⟨"seen"⟩, ⟨"var"⟩]
        [.edit .toggleRaw, .edit (.setRawSql "1"), .edit (.select none), .edit .toggleRaw,
          .edit (.setRawSql "now()")] seenColumn { random := id } = .ok (new, { random := id }) ∧
      gestureEach .sequential [⟨"seen"⟩, ⟨"var"⟩]
        [.edit (.setRawSql "1"), .edit (.setRawSql "now()"), .edit (.select none),
          .edit .toggleRaw, .edit .toggleRaw] seenColumn { random := id } =
            .ok (new, { random := id })) ∧
    gestureEach .sequential [⟨"seen"⟩, ⟨"var"⟩] [.edit .toggleRaw, .edit .toggleRaw] seenColumn
      { random := id } = .ok (seenColumn, { random := id }) := by
  have located : seenColumn.locate [⟨"seen"⟩, ⟨"var"⟩] = .ok seenVar := by decide
  obtain ⟨run, order, even⟩ := payload_edits_frame located .sequential { random := id }
  obtain ⟨new, replaced, done⟩ :=
    run [.toggleRaw, .setRawSql "1", .select none, .toggleRaw, .setRawSql "now()"]
  refine ⟨located, ⟨new, replaced, done, ?_⟩, even 1⟩
  have reordered := order
    [.setRawSql "1", .setRawSql "now()", .select none, .toggleRaw, .toggleRaw]
    [.toggleRaw, .setRawSql "1", .select none, .toggleRaw, .setRawSql "now()"]
    fun field => by cases field <;> rfl
  exact reordered.trans done

end Node

end QueryTree
