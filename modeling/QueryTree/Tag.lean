/-! The closed set of node kinds that a query document is built from, and the
kinds of join. -/

namespace QueryTree

inductive Tag where
  | base
  | list
  | var
  | query
  | select
  | ctes
  | cte
  | columns
  | column
  | fromClause
  | whereClause
  | table
  | aliasName
  | join
  | joinOn
  | sourceTable
deriving DecidableEq, Inhabited

namespace Tag

def all : List Tag :=
  [base, list, var, query, select, ctes, cte, columns, column, fromClause, whereClause, table,
    aliasName, join, joinOn, sourceTable]

/-- The name of a tag in messages and on the wire. -/
def text : Tag → String
  | base => "base"
  | list => "list"
  | var => "var"
  | query => "query"
  | select => "select"
  | ctes => "ctes"
  | cte => "cte"
  | columns => "columns"
  | column => "column"
  | fromClause => "from"
  | whereClause => "where"
  | table => "table"
  | aliasName => "alias"
  | join => "join"
  | joinOn => "joinOn"
  | sourceTable => "sourceTable"

instance : ToString Tag := ⟨text⟩

theorem mem_all (tag : Tag) : tag ∈ all := by cases tag <;> decide

end Tag

inductive JoinKind where
  | left
  | right
  | inner
deriving DecidableEq, Inhabited

namespace JoinKind

/-- Every kind of join, in the order in which a picker shows them. -/
def all : List JoinKind := [left, right, inner]

def text : JoinKind → String
  | left => "left"
  | right => "right"
  | inner => "inner"

instance : ToString JoinKind := ⟨text⟩

end JoinKind

end QueryTree
