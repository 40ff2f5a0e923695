import QueryTree.Proofs.Generations
import QueryTree.Proofs.Session

/-! The grammar of a query document. What grows out of a new query has exactly the
children that the default constructs give it, plus columns, joins, CTEs and aliases in
their places. Every change keeps to this grammar; it bounds how deep a tree gets, so
that any such document survives being written and read. -/

namespace QueryTree

namespace Tag

/-- The children of a node, by their tags. The tags that are missing here do not occur. -/
def Grammar : Tag → List Tag → Prop
  | .query, tags => tags = [.ctes, .select]
  | .ctes, tags => ∀ tag ∈ tags, tag = .cte
  | .cte, tags => tags = [.aliasName, .select]
  | .select, tags => tags = [.columns, .fromClause, .whereClause]
  | .columns, tags => ∀ tag ∈ tags, tag = .column
  | .column, tags => tags = [.var] ∨ tags = [.var, .aliasName]
  | .fromClause, tags => tags.count .table = 1 ∧ ∀ tag ∈ tags, tag = .table ∨ tag = .join
  | .join, tags => tags = [.table, .joinOn]
  | .joinOn, tags => tags = [.var, .var]
  | .table, tags => tags = [] ∨ tags = [.aliasName]
  | .var, tags | .aliasName, tags | .whereClause, tags => tags = []
  | .base, _ | .list, _ | .sourceTable, _ => False

/-- The most generations that a node with this tag can have. -/
def rank : Tag → Nat
  | .query => 8
  | .ctes => 7
  | .cte => 6
  | .select => 5
  | .fromClause => 4
  | .columns | .join => 3
  | .column | .table | .joinOn => 2
  | _ => 1

theorem Grammar.rank_lt {parent : Tag} {tags : List Tag} (h : parent.Grammar tags) :
    ∀ tag ∈ tags, tag.rank < parent.rank := by
  cases parent <;> simp only [Grammar] at h
  case ctes | columns =>
    intro tag htag
    rw [h tag htag]
    decide
  case fromClause =>
    intro tag htag
    rcases h.2 tag htag with rfl | rfl <;> decide
  case column | table => rcases h with rfl | rfl <;> decide
  all_goals
    subst h
    decide

end Tag

theorem Node.generations_le_rank {n : Node} (h : n.Conforms Tag.Grammar) :
    n.generations ≤ n.tag.rank := by
  induction n using children_induction with
  | step n ih =>
    obtain ⟨here, below⟩ := conforms_iff.1 h
    have positive : 0 < n.tag.rank := by cases n.tag <;> decide
    have smaller : ∀ c ∈ n.children, c.generations ≤ n.tag.rank - 1 := by
      intro c hc
      have := ih c hc (below c hc)
      have := here.rank_lt c.tag (List.mem_map_of_mem hc)
      omega
    have := (generations_le_iff n (n.tag.rank - 1)).2 smaller
    omega

/-! ## One change -/

/-- What a change does to the tags of the children. -/
inductive Retagged (parent : Tag) (tags : List Tag) : List Tag → Prop
  | added {part : Part} {tags' : List Tag} (home : parent = part.home)
      (perm : tags'.Perm (part.tag :: tags)) : Retagged parent tags tags'
  | dropped {child : Tag} {before after : List Tag} (loose : Loose parent child)
      (split : tags = before ++ child :: after) : Retagged parent tags (before ++ after)
  | named (loose : Loose parent .aliasName) (free : .aliasName ∉ tags) :
      Retagged parent tags (tags ++ [.aliasName])
  | kept : Retagged parent tags tags

theorem Retagged.removeChild {n c : Node} (hn : n.Distinct) (hc : c ∈ n.children)
    (loose : Loose n.tag c.tag) :
    Retagged n.tag n.childTags (n.removeChild c.key).childTags := by
  obtain ⟨before, after, split⟩ := List.append_of_mem hc
  have apart := Node.key_ne_of_split split hn.nodup_child_keys
  rw [Node.removeChild_split split apart, Node.childTags, Node.childTags, split,
    Node.children_withChildren, List.map_append, List.map_append, List.map_cons]
  exact .dropped loose rfl

theorem Change.retagged {change : Change} {target : Node} (h : change.Suits target)
    (distinct : target.Distinct) (kind : KeyKind) (supply : Supply) :
    Retagged target.tag target.childTags (change.revise kind target supply).1.childTags := by
  cases change with
  | add part place =>
    have grown := (Node.children_addChild_perm target (part.sketch.build kind supply).1 place).map
      (·.tag)
    rw [List.map_cons, Sketch.tag_build, part.tag_sketch] at grown
    exact .added h grown
  | remove key =>
    obtain ⟨part, home, c, hc, ht, rfl⟩ := h
    exact .removeChild distinct hc (by rw [home, ht]; exact part.loose)
  | toggleAlias =>
    have loose : Loose target.tag .aliasName := by
      rcases h with ht | ht
      all_goals rw [ht]; decide
    rw [revise_toggleAlias]
    cases found : target.childOfTag .aliasName with
    | some child =>
      have tag : child.tag = .aliasName := by simpa using List.find?_some found
      exact .removeChild distinct (List.mem_of_find?_eq_some found) (tag ▸ loose)
    | none =>
      have free := List.count_eq_zero.1 (count_aliasName_eq_zero found)
      have last : (target.addChild ((Sketch.leaf .aliasName).build kind supply).1 .back).childTags =
          target.childTags ++ [.aliasName] := by
        simp [Node.addChild, Node.childTags, Sketch.tag_build, Sketch.leaf]
      dsimp only
      rw [last]
      exact .named loose free
  | edit change => exact .kept

theorem Tag.Grammar.retagged {parent : Tag} {tags tags' : List Tag} (h : parent.Grammar tags)
    (change : Retagged parent tags tags') : parent.Grammar tags' := by
  cases change with
  | @added part tags' home perm =>
    subst home
    have mem : ∀ {tag}, tag ∈ tags' → tag = part.tag ∨ tag ∈ tags := fun htag =>
      List.mem_cons.1 (perm.mem_iff.1 htag)
    cases part with
    | column | cte => exact fun tag htag => (mem htag).elim id (h tag)
    | join =>
      refine ⟨?_, fun tag htag => (mem htag).elim .inr (h.2 tag)⟩
      rw [perm.count_eq, List.count_cons_of_ne (by decide)]
      exact h.1
  | @dropped child before after loose split =>
    subst split
    have mem : ∀ {tag}, tag ∈ before ++ after → tag ∈ before ++ child :: after := by
      simp only [List.mem_append, List.mem_cons]
      tauto
    simp only [Loose, List.mem_cons, Prod.mk.injEq, List.not_mem_nil, or_false] at loose
    rcases loose with ⟨rfl, rfl⟩ | ⟨rfl, rfl⟩ | ⟨rfl, rfl⟩ | ⟨rfl, rfl⟩ | ⟨rfl, rfl⟩
    · exact fun tag htag => h tag (mem htag)
    · refine ⟨?_, fun tag htag => h.2 tag (mem htag)⟩
      have count := h.1
      rw [List.count_append, List.count_cons_of_ne (by decide), ← List.count_append] at count
      exact count
    · exact fun tag htag => h tag (mem htag)
    -- The alias is the last child, so the list is known up to it.
    · rcases before with _ | ⟨first, _ | ⟨second, before⟩⟩ <;> simp_all [Grammar]
    · rcases before with _ | ⟨first, before⟩ <;> simp_all [Grammar]
  | named loose free =>
    have parents : parent = .column ∨ parent = .table := by simpa [Loose] using loose
    rcases parents with rfl | rfl
    all_goals
      rcases h with rfl | rfl
      · exact .inr rfl
      · exact absurd (by decide) free
  | kept => exact h

theorem grown_follow_grammar : ∀ sketch ∈ grownSketches, sketch.Conforms Tag.Grammar := by
  simp [grownSketches, Sketch.column, Sketch.join, Sketch.cte, Sketch.select, Sketch.branch,
    Sketch.leaf, Sketch.Conforms, Sketch.AllConform, Tag.Grammar]

namespace Session

/-! ## Whole runs -/

theorem Step.conforms_grammar {s t : Session} (step : Step s t) (distinct : s.doc.root.Distinct)
    (grammar : s.doc.root.Conforms Tag.Grammar) : t.doc.root.Conforms Tag.Grammar := by
  obtain ⟨keys, target, change, new, suits, hd, hr, rfl⟩ := step.exists_revised
  obtain ⟨count, revision, -⟩ := change.revision suits s.doc.keyKind s.supply
  have member := Node.descend_mem hd
  -- Removal goes by key, so the grammar is kept only as long as keys stay distinct.
  have here := (Node.conforms_iff.1 (grammar.of_mem member)).1.retagged
    (change.retagged suits (distinct.of_mem member) s.doc.keyKind s.supply)
  rw [← revision.tag_eq] at here
  exact (grammar.replaceBelow hd revision.tag_eq hr).2
    (revision.conforms_of (grammar.of_mem member) grown_follow_grammar here)

/-- If no key is drawn twice, a new document follows the grammar through every run of changes.
So it never has more than eight generations, and its own text is read back as a document with
the same tree, SQL text and scopes. Numbered keys are never drawn twice; random ones are not as
long as the numbers that they are made of do not repeat. -/
theorem grown_documents_reopen (schema : Schema) (kind : KeyKind) (style : Sql.Style)
    (supply : Supply) (t : Session) (run : Runs (opened schema kind style supply) t) :
    ∃ count, t.supply = supply.skip kind count ∧
      ((kind = .uuid → (supply.randomBits count).Nodup) →
        t.doc.root.tag = .query ∧ t.doc.root.Conforms Tag.Grammar ∧ t.doc.root.generations ≤ 8 ∧
        (Wire.ofText? Node.decode t.doc.root.toJson.pretty).map
          (Document.ofRoot · schema kind style) = some t.doc) := by
  have opening : (opened schema kind style supply).supply = supply.skip kind Sketch.query.size :=
    Sketch.build_supply kind Sketch.query supply
  have start : (opened schema kind style supply).doc.root.Conforms Tag.Grammar := by
    refine Sketch.build_conforms kind Sketch.query supply ?_
    simp [Sketch.query, Sketch.select, Sketch.branch, Sketch.leaf, Sketch.Conforms,
      Sketch.AllConform, Tag.Grammar]
  obtain ⟨count, rest, kept⟩ := run.keeps (P := fun s => s.doc.root.Conforms Tag.Grammar)
    fun step sound => step.conforms_grammar sound.distinct
  have same : (opened schema kind style supply).doc.keyKind = kind := rfl
  rw [opening, same, Supply.skip_skip] at rest
  refine ⟨Sketch.query.size + count, rest, fun random => ?_⟩
  obtain ⟨sound, grammar⟩ := kept 0 (ready_opened schema style random).sound start
  have shallow : t.doc.root.generations ≤ 8 := by
    have := Node.generations_le_rank grammar
    rwa [sound.query] at this
  refine ⟨sound.query, grammar, shallow, ?_⟩
  rw [(Node.reads_own_texts _).1, if_pos (by omega), Option.map_some, run.doc_eq]
  rfl

/-- All fourteen random keys of the document are different. -/
theorem named_cte_document_reopens :
    Runs (blank .uuid) (withNamedCte .uuid) ∧
      (Supply.randomBits { random := id } 14).Nodup ∧
      (withNamedCte .uuid).doc.root.Conforms Tag.Grammar ∧
      (withNamedCte .uuid).doc.root.generations ≤ 8 ∧
      (Wire.ofText? Node.decode (withNamedCte .uuid).doc.root.toJson.pretty).map
        (Document.ofRoot · {} .uuid {}) = some (withNamedCte .uuid).doc := by
  obtain ⟨count, rest, kept⟩ := grown_documents_reopen {} .uuid {} { random := id }
    (withNamedCte .uuid) (runs_withNamedCte .uuid)
  have drawn : (withNamedCte .uuid).supply.drawn = 14 := by decide +kernel
  obtain rfl : count = 14 := by
    rw [rest] at drawn
    exact (Nat.zero_add count).symm.trans drawn
  have random : (Supply.randomBits { random := id } 14).Nodup := by decide
  obtain ⟨-, grammar, shallow, reopened⟩ := kept fun _ => random
  exact ⟨runs_withNamedCte .uuid, random, grammar, shallow, reopened⟩

end Session

end QueryTree
