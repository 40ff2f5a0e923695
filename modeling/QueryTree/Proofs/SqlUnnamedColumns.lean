import QueryTree.Proofs.ScopePasses
import QueryTree.Proofs.SqlComposition

/-! What the two styles of a text differ in. The text of a query takes up the texts of
its columns in order, each after a text that is the same in both styles. So is the text
of a column with an alias, while a column without one may drop the word after its
variable. So the one text, cut after the variable of every such column, becomes the
other when the word is put in at every cut. -/

namespace QueryTree

namespace Node

/-- The columns that the select of a query or of a CTE lists. -/
def listedColumns (n : Node) : List Node :=
  match (n.childOfTag .select).bind (·.childOfTag .columns) with
  | some columns => columns.childrenOfTag .column
  | none => []

/-- The columns that the text of a query takes up: those of its CTEs, then its own. -/
def writtenColumns (query : Node) : List Node :=
  (match query.childOfTag .ctes with
    | some ctes => (ctes.childrenOfTag .cte).flatMap listedColumns
    | none => []) ++ query.listedColumns

/-- The columns among them that have no alias, or one without text. -/
def unnamedColumns (query : Node) : List Node := query.writtenColumns.filter (·.alias?.isNone)

end Node

namespace Sql

variable {style : Style}

/-! ## The text of one column -/

/-- The text of the variable of a column. -/
def ofColumnVar (column : Node) : String := ofChild .var ofVar column

theorem ofChild_aliasName (n : Node) : ofChild .aliasName ofAlias n = n.alias?.getD "" := by
  have first : ofChild .aliasName ofAlias n = ((parts {} n).first .aliasName).getD "" :=
    ofChild_eq {} .aliasName n
  rw [first, alias?_eq {}]
  cases (parts {} n).first .aliasName with
  | none => rfl
  | some name => by_cases empty : name = "" <;> simp [Option.filter_some, empty]

theorem alias?_ne_empty {n : Node} {name : String} (h : n.alias? = some name) : name ≠ "" := by
  obtain ⟨c, -, hc⟩ := Option.bind_eq_some_iff.1 h
  exact (Payload.alias?_eq_some_iff.1 hc).2

theorem ofColumn_of_alias {column : Node} {name : String} (h : column.alias? = some name) :
    ofColumn style column = ofColumnVar column ++ (" as " ++ name) := by
  simp [ofColumn, ofChild_aliasName, h, alias?_ne_empty h, ofColumnVar, String.append_assoc]

theorem ofColumn_of_no_alias {column : Node} (h : column.alias? = none) :
    ofColumn style column =
      ofColumnVar column ++ if style.keepEmptyAlias then " as " else "" := by
  cases keep : style.keepEmptyAlias <;> simp [ofColumn, ofChild_aliasName, h, keep, ofColumnVar]

/-! ## Columns within a text -/

/-- The texts of columns, each after a text of its own, and a last text after them all. -/
def written (style : Style) : List (String × Node) → String → String
  | [], last => last
  | (front, column) :: rest, last => front ++ (ofColumn style column ++ written style rest last)

theorem written_append (style : Style) (entries rest : List (String × Node)) (last : String) :
    written style (entries ++ rest) last = written style entries (written style rest last) := by
  induction entries with
  | nil => rfl
  | cons entry entries ih => simp [written, ih]

theorem written_last_append (style : Style) (entries : List (String × Node)) (last text : String) :
    written style entries (last ++ text) = written style entries last ++ text := by
  induction entries with
  | nil => rfl
  | cons entry entries ih => simp [written, ih, String.append_assoc]

/-- A text, for each way to write a missing alias, that takes up columns in order and
depends on the way through them only. -/
def TakesUp (joinPlaceholder : String) (columns : List Node) (text : Bool → String) : Prop :=
  ∃ entries last, entries.map Prod.snd = columns ∧
    ∀ keepEmptyAlias, text keepEmptyAlias = written { keepEmptyAlias, joinPlaceholder } entries last

namespace TakesUp

variable {joinPlaceholder : String} {columns more : List Node} {text rest : Bool → String}

theorem fixed (joinPlaceholder text : String) : TakesUp joinPlaceholder [] fun _ => text :=
  ⟨[], text, rfl, fun _ => rfl⟩

theorem one (joinPlaceholder : String) (column : Node) :
    TakesUp joinPlaceholder [column] fun keepEmptyAlias =>
      ofColumn { keepEmptyAlias, joinPlaceholder } column :=
  ⟨[("", column)], "", rfl, fun _ => by simp [written]⟩

/-- The last text of the first part comes before the first column of the second. -/
theorem append (h : TakesUp joinPlaceholder columns text) (h' : TakesUp joinPlaceholder more rest) :
    TakesUp joinPlaceholder (columns ++ more) fun keep => text keep ++ rest keep := by
  obtain ⟨entries, last, rfl, ht⟩ := h
  obtain ⟨entries', last', rfl, hr⟩ := h'
  cases entries' with
  | nil =>
    refine ⟨entries, last ++ last', by simp, fun keep => ?_⟩
    simp only [ht, hr, written_last_append, written]
  | cons entry entries' =>
    obtain ⟨front, column⟩ := entry
    refine ⟨entries ++ (last ++ front, column) :: entries', last', by simp, fun keep => ?_⟩
    simp only [ht, hr, written_append, written, String.append_assoc, written_last_append]

theorem enclose (h : TakesUp joinPlaceholder columns text) (front back : String) :
    TakesUp joinPlaceholder columns fun keep => front ++ text keep ++ back := by
  simpa using ((fixed joinPlaceholder front).append h).append (fixed joinPlaceholder back)

theorem intercalate (nodes : List Node) {columnsOf : Node → List Node}
    {textOf : Bool → Node → String}
    (h : ∀ n ∈ nodes, TakesUp joinPlaceholder (columnsOf n) fun keep => textOf keep n) :
    TakesUp joinPlaceholder (nodes.flatMap columnsOf) fun keep =>
      ",".intercalate (nodes.map (textOf keep)) := by
  induction nodes with
  | nil => exact fixed joinPlaceholder ""
  | cons n nodes ih =>
    have first := h n List.mem_cons_self
    cases nodes with
    | nil => simpa using first
    | cons m nodes =>
      have others := ih fun k hk => h k (List.mem_cons_of_mem n hk)
      simpa [String.append_assoc] using first.append (others.enclose "," "")

end TakesUp

/-! ## The text of a query -/

theorem takesUp_ofColumns (joinPlaceholder : String) (n : Node) :
    TakesUp joinPlaceholder (n.childrenOfTag .column) fun keepEmptyAlias =>
      ofColumns { keepEmptyAlias, joinPlaceholder } n := by
  unfold ofColumns
  cases n.childrenOfTag .column with
  | nil => exact .fixed joinPlaceholder "*"
  | cons c cs =>
    have each := TakesUp.intercalate (c :: cs) fun c _ => TakesUp.one joinPlaceholder c
    simpa using each

/-- The from clause has the same text in both styles. -/
theorem ofFrom_eq (keepEmptyAlias : Bool) (joinPlaceholder : String) :
    ofFrom { keepEmptyAlias, joinPlaceholder } = ofFrom { joinPlaceholder } := rfl

theorem takesUp_select (joinPlaceholder : String) (n : Node) :
    TakesUp joinPlaceholder n.listedColumns fun keepEmptyAlias =>
      ofChild .select (ofSelect { keepEmptyAlias, joinPlaceholder }) n := by
  unfold ofChild Node.listedColumns
  cases n.childOfTag .select with
  | none => exact .fixed joinPlaceholder ""
  | some select =>
    simp only [Option.bind_some, ofSelect, ofFrom_eq]
    generalize ofChild .fromClause (ofFrom { joinPlaceholder }) select = clause
    cases select.childOfTag .columns with
    | none => exact .fixed joinPlaceholder ("SELECT " ++ "*" ++ " FROM " ++ clause)
    | some columns =>
      have listed := (takesUp_ofColumns joinPlaceholder columns).enclose "SELECT "
        (" FROM " ++ clause)
      simpa only [String.append_assoc] using listed

theorem takesUp_ofCte (joinPlaceholder : String) (n : Node) :
    TakesUp joinPlaceholder n.listedColumns fun keepEmptyAlias =>
      ofCte { keepEmptyAlias, joinPlaceholder } n :=
  (takesUp_select joinPlaceholder n).enclose (ofChild .aliasName ofAlias n ++ "(") ")"

theorem takesUp_ofCtes (joinPlaceholder : String) (n : Node) :
    TakesUp joinPlaceholder ((n.childrenOfTag .cte).flatMap Node.listedColumns)
      fun keepEmptyAlias => ofCtes { keepEmptyAlias, joinPlaceholder } n := by
  unfold ofCtes
  cases n.childrenOfTag .cte with
  | nil => exact .fixed joinPlaceholder ""
  | cons c cs =>
    have each := TakesUp.intercalate (c :: cs) fun c _ => takesUp_ofCte joinPlaceholder c
    simpa using each.enclose "WITH " ""

theorem takesUp_ofQuery (joinPlaceholder : String) (n : Node) :
    TakesUp joinPlaceholder n.writtenColumns fun keepEmptyAlias =>
      ofQuery { keepEmptyAlias, joinPlaceholder } n := by
  refine TakesUp.append ?_ (takesUp_select joinPlaceholder n)
  unfold ofChild
  cases n.childOfTag .ctes with
  | none => exact .fixed joinPlaceholder ""
  | some ctes => exact takesUp_ofCtes joinPlaceholder ctes

/-! ## Cuts -/

/-- The text of columns in the style that writes nothing for a missing alias, cut after
the variable of every column without one; `done` is the text since the last cut. -/
def cuts (done : String) : List (String × Node) → String → List String
  | [], last => [done ++ last]
  | (front, column) :: rest, last =>
    match column.alias? with
    | some name => cuts (done ++ front ++ ofColumnVar column ++ " as " ++ name) rest last
    | none => (done ++ front ++ ofColumnVar column) :: cuts "" rest last

theorem cuts_ne_nil (done : String) (entries : List (String × Node)) (last : String) :
    cuts done entries last ≠ [] := by
  fun_induction cuts done entries last <;> simp_all

/-- Without the word, the text is the cuts put together. -/
theorem join_cuts (joinPlaceholder done : String) (entries : List (String × Node)) (last : String) :
    String.join (cuts done entries last) =
      done ++ written { keepEmptyAlias := false, joinPlaceholder } entries last := by
  fun_induction cuts done entries last with
  | case1 => simp [written]
  | case2 done front column rest last name named ih =>
    rw [ih, written, ofColumn_of_alias named]
    simp only [String.append_assoc]
  | case3 done front column rest last unnamed ih =>
    rw [String.join_cons, ih, written, ofColumn_of_no_alias unnamed]
    simp [String.append_assoc]

/-- With the word, it stands at every cut. -/
theorem intercalate_cuts (joinPlaceholder done : String) (entries : List (String × Node))
    (last : String) :
    " as ".intercalate (cuts done entries last) =
      done ++ written { keepEmptyAlias := true, joinPlaceholder } entries last := by
  fun_induction cuts done entries last with
  | case1 => simp [written]
  | case2 done front column rest last name named ih =>
    rw [ih, written, ofColumn_of_alias named]
    simp only [String.append_assoc]
  | case3 done front column rest last unnamed ih =>
    rw [String.intercalate_cons_of_ne_nil (cuts_ne_nil _ _ _), ih, written,
      ofColumn_of_no_alias unnamed]
    simp [String.append_assoc]

/-- There is one cut for each column without an alias, after its variable. -/
theorem cuts_ends (done : String) (entries : List (String × Node)) (last : String) :
    List.Forall₂ (fun text column => ∃ front, text = front ++ ofColumnVar column)
      (cuts done entries last).dropLast
      ((entries.map Prod.snd).filter (·.alias?.isNone)) := by
  fun_induction cuts done entries last with
  | case1 => exact .nil
  | case2 done front column rest last name named ih => simpa [named] using ih
  | case3 done front column rest last unnamed ih =>
    rw [List.dropLast_cons_of_ne_nil (cuts_ne_nil _ _ _), List.map_cons,
      List.filter_cons_of_pos (by simp [unnamed])]
    exact .cons ⟨done ++ front, rfl⟩ ih

/-- Putting a text in between makes a list of texts longer, unless there is but one. -/
theorem length_intercalate (between first : String) (texts : List String) :
    (between.intercalate (first :: texts)).length =
      (String.join (first :: texts)).length + between.length * texts.length := by
  induction texts generalizing first with
  | nil => simp
  | cons text texts ih =>
    rw [String.intercalate_cons_cons, String.join_cons, String.length_append, String.length_append,
      String.length_append, ih, List.length_cons, Nat.mul_succ]
    omega

/-! ## The two styles -/

/-- The text of a query takes up its columns in order. Cut after the variable of every
column without an alias, the text that writes nothing for a missing alias gives one text
more than there are such columns, and the other text is the same with the word put in at
every cut. So both are the same exactly if every column has an alias. -/
theorem document_cut_at_unnamed {root : Node} (query : root.tag = .query)
    (joinPlaceholder : String) :
    ∃ entries last, entries.map Prod.snd = root.writtenColumns ∧
      (∀ keepEmptyAlias, document { keepEmptyAlias, joinPlaceholder } root =
        .ok (written { keepEmptyAlias, joinPlaceholder } entries last)) ∧
      ∃ texts, texts = cuts "" entries last ∧
        texts.length = root.unnamedColumns.length + 1 ∧
        document { keepEmptyAlias := false, joinPlaceholder } root = .ok (String.join texts) ∧
        document { keepEmptyAlias := true, joinPlaceholder } root =
          .ok (" as ".intercalate texts) ∧
        List.Forall₂ (fun text column => ∃ front, text = front ++ ofColumnVar column)
          texts.dropLast root.unnamedColumns ∧
        (document { keepEmptyAlias := false, joinPlaceholder } root =
          document { keepEmptyAlias := true, joinPlaceholder } root ↔
            root.unnamedColumns.length = 0) := by
  obtain ⟨entries, last, columns, all⟩ := takesUp_ofQuery joinPlaceholder root
  have sql (keepEmptyAlias : Bool) : document { keepEmptyAlias, joinPlaceholder } root =
      .ok (written { keepEmptyAlias, joinPlaceholder } entries last) := by
    rw [document, if_pos query]
    exact congrArg Except.ok (all keepEmptyAlias)
  have joined := join_cuts joinPlaceholder "" entries last
  have worded := intercalate_cuts joinPlaceholder "" entries last
  have ends := cuts_ends "" entries last
  rw [columns] at ends
  rw [String.empty_append] at joined worded
  have count : (cuts "" entries last).length = root.unnamedColumns.length + 1 := by
    have shorter := ends.length_eq
    have some := List.length_pos_of_ne_nil (cuts_ne_nil "" entries last)
    rw [List.length_dropLast] at shorter
    rw [Node.unnamedColumns, ← shorter]
    omega
  refine ⟨entries, last, columns, sql, _, rfl, count, ?_, ?_, ends, ?_⟩
  · rw [sql, joined]
  · rw [sql, worded]
  · rw [sql, sql, ← joined, ← worded, Except.ok.injEq]
    obtain ⟨first, texts, split⟩ := List.exists_cons_of_ne_nil (cuts_ne_nil "" entries last)
    rw [split, List.length_cons] at count
    have longer := length_intercalate " as " first texts
    rw [split]
    constructor
    · intro same
      have word : " as ".length = 4 := rfl
      rw [same, word] at longer
      omega
    · intro none
      obtain rfl : texts = [] := List.length_eq_zero_iff.1 (by omega)
      simp

end Sql

namespace Node

/-- Raw SQL that has the word in it, without an alias. -/
def rawColumn : Node :=
  { key := ⟨"one"⟩, tag := .column, kids := some [
      { key := ⟨"one.var"⟩, tag := .var, data := { isRaw := true, rawSql := some "1 as one" } }] }

/-- A picked column with an alias that has no text yet. -/
def blankColumn : Node :=
  { key := ⟨"days"⟩, tag := .column, kids := some [
      { key := ⟨"days.alias"⟩, tag := .aliasName, data := { aliasText := some "" } },
      { key := ⟨"days.var"⟩, tag := .var, data := { selected := some ⟨"day"⟩ } }] }

/-- A query with a column with an alias and one without, and a CTE with one without. -/
def halfNamed : Node :=
  { key := ⟨"query"⟩, tag := .query, kids := some [
      { key := ⟨"ctes"⟩, tag := .ctes, kids := some [
        { key := ⟨"recent"⟩, tag := .cte, kids := some [
          { key := ⟨"recent.alias"⟩, tag := .aliasName, data := { aliasText := some "recent" } },
          selectFrom "inner" [rawColumn] "orders"] }] },
      selectFrom "outer" [pickedColumn "seen" "one", blankColumn] "recent"] }

end Node

namespace Sql

theorem halfNamed_cut :
    Node.halfNamed.tag = .query ∧ ∃ first second last,
      document .clean Node.halfNamed = .ok (first ++ (second ++ last)) ∧
      document {} Node.halfNamed = .ok (first ++ " as " ++ (second ++ " as " ++ last)) ∧
      (∃ front, first = front ++ "1 as one") ∧ (∃ front, second = front ++ "\"column_#day\"") ∧
      document .clean Node.halfNamed ≠ document {} Node.halfNamed := by
  have unnamed : Node.halfNamed.unnamedColumns = [Node.rawColumn, Node.blankColumn] := by decide
  obtain ⟨-, -, -, -, texts, -, count, clean, kept, ends, same⟩ :=
    document_cut_at_unnamed (show Node.halfNamed.tag = .query from rfl) "TODO JOINS"
  rw [unnamed] at count ends same
  match texts, count with
  | [first, second, last], _ =>
    obtain ⟨one, rest⟩ := List.forall₂_cons.1 ends
    obtain ⟨two, -⟩ := List.forall₂_cons.1 rest
    refine ⟨rfl, first, second, last, by simpa [Style.clean] using clean, ?_, one, two, fun h => ?_⟩
    · simpa [String.append_assoc] using kept
    · have none : [Node.rawColumn, Node.blankColumn].length = 0 := same.1 h
      cases none

end Sql

end QueryTree
