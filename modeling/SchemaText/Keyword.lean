import SchemaText.Text.CaseFold

/-!
# Keywords

The words that have a meaning of their own in schema statements. A word of the input is
a keyword whatever the case of its letters.

Most keywords are reserved: an object of that name has to be written in quotes. The
others (`ROWID`, `STORED`, `STRICT`, `TRUE` and `FALSE`) mean something in one place
only and are plain names everywhere else.

## Main definitions

* `Keyword`: the keywords, with `Keyword.spelling` and `Keyword.isReserved`.
* `Keyword.ofText?`: the keyword that a text spells.

## Main results

* `Keyword.ofText?_spelling`: a keyword is read back from its spelling.
* `Keyword.ofText?_congr`: the case of the letters does not matter.
* `Keyword.same_of_ofText?`: a text spells its keyword.
-/

namespace SchemaText

/-- The words with a meaning of their own. -/
inductive Keyword
  | ABORT | ACTION | ADD | AFTER | ALL | ALTER | ALWAYS | ANALYZE | AND | AS | ASC
  | ATTACH | AUTOINCREMENT | BEFORE | BEGIN | BETWEEN | BY | CASCADE | CASE | CAST
  | CHECK | COLLATE | COLUMN | COMMIT | CONFLICT | CONSTRAINT | CREATE | CROSS
  | CURRENT | CURRENT_DATE | CURRENT_TIME | CURRENT_TIMESTAMP | DATABASE | DEFAULT
  | DEFERRABLE | DEFERRED | DELETE | DESC | DETACH | DISTINCT | DO | DROP | EACH | ELSE
  | END | ESCAPE | EXCEPT | EXCLUDE | EXCLUSIVE | EXISTS | EXPLAIN | FAIL | FALSE
  | FILTER | FIRST | FOLLOWING | FOR | FOREIGN | FROM | FULL | GENERATED | GLOB | GROUP
  | GROUPS | HAVING | IF | IGNORE | IMMEDIATE | IN | INDEX | INDEXED | INITIALLY
  | INNER | INSERT | INSTEAD | INTERSECT | INTO | IS | ISNULL | JOIN | KEY | LAST
  | LEFT | LIKE | LIMIT | MATCH | MATERIALIZED | NATURAL | NO | NOT | NOTHING | NOTNULL
  | NULL | NULLS | OF | OFFSET | ON | OR | ORDER | OTHERS | OUTER | OVER | PARTITION
  | PLAN | PRAGMA | PRECEDING | PRIMARY | QUERY | RAISE | RANGE | RECURSIVE
  | REFERENCES | REGEXP | REINDEX | RELEASE | RENAME | REPLACE | RESTRICT | RETURNING
  | RIGHT | ROLLBACK | ROW | ROWID | ROWS | SAVEPOINT | SELECT | SET | STORED | STRICT
  | TABLE | TEMP | TEMPORARY | THEN | TIES | TO | TRANSACTION | TRIGGER | TRUE
  | UNBOUNDED | UNION | UNIQUE | UPDATE | USING | VACUUM | VALUES | VIEW | VIRTUAL
  | WHEN | WHERE | WINDOW | WITH | WITHOUT
  deriving DecidableEq, Repr

namespace Keyword

/-- The keyword in capital letters, as it is written. -/
def spelling : Keyword → String
  | ABORT => "ABORT" | ACTION => "ACTION" | ADD => "ADD" | AFTER => "AFTER"
  | ALL => "ALL" | ALTER => "ALTER" | ALWAYS => "ALWAYS" | ANALYZE => "ANALYZE"
  | AND => "AND" | AS => "AS" | ASC => "ASC" | ATTACH => "ATTACH"
  | AUTOINCREMENT => "AUTOINCREMENT" | BEFORE => "BEFORE" | BEGIN => "BEGIN"
  | BETWEEN => "BETWEEN" | BY => "BY" | CASCADE => "CASCADE" | CASE => "CASE"
  | CAST => "CAST" | CHECK => "CHECK" | COLLATE => "COLLATE" | COLUMN => "COLUMN"
  | COMMIT => "COMMIT" | CONFLICT => "CONFLICT" | CONSTRAINT => "CONSTRAINT"
  | CREATE => "CREATE" | CROSS => "CROSS" | CURRENT => "CURRENT"
  | CURRENT_DATE => "CURRENT_DATE" | CURRENT_TIME => "CURRENT_TIME"
  | CURRENT_TIMESTAMP => "CURRENT_TIMESTAMP" | DATABASE => "DATABASE"
  | DEFAULT => "DEFAULT" | DEFERRABLE => "DEFERRABLE" | DEFERRED => "DEFERRED"
  | DELETE => "DELETE" | DESC => "DESC" | DETACH => "DETACH" | DISTINCT => "DISTINCT"
  | DO => "DO" | DROP => "DROP" | EACH => "EACH" | ELSE => "ELSE" | END => "END"
  | ESCAPE => "ESCAPE" | EXCEPT => "EXCEPT" | EXCLUDE => "EXCLUDE"
  | EXCLUSIVE => "EXCLUSIVE" | EXISTS => "EXISTS" | EXPLAIN => "EXPLAIN"
  | FAIL => "FAIL" | FALSE => "FALSE" | FILTER => "FILTER" | FIRST => "FIRST"
  | FOLLOWING => "FOLLOWING" | FOR => "FOR" | FOREIGN => "FOREIGN" | FROM => "FROM"
  | FULL => "FULL" | GENERATED => "GENERATED" | GLOB => "GLOB" | GROUP => "GROUP"
  | GROUPS => "GROUPS" | HAVING => "HAVING" | IF => "IF" | IGNORE => "IGNORE"
  | IMMEDIATE => "IMMEDIATE" | IN => "IN" | INDEX => "INDEX" | INDEXED => "INDEXED"
  | INITIALLY => "INITIALLY" | INNER => "INNER" | INSERT => "INSERT"
  | INSTEAD => "INSTEAD" | INTERSECT => "INTERSECT" | INTO => "INTO" | IS => "IS"
  | ISNULL => "ISNULL" | JOIN => "JOIN" | KEY => "KEY" | LAST => "LAST"
  | LEFT => "LEFT" | LIKE => "LIKE" | LIMIT => "LIMIT" | MATCH => "MATCH"
  | MATERIALIZED => "MATERIALIZED" | NATURAL => "NATURAL" | NO => "NO" | NOT => "NOT"
  | NOTHING => "NOTHING" | NOTNULL => "NOTNULL" | NULL => "NULL" | NULLS => "NULLS"
  | OF => "OF" | OFFSET => "OFFSET" | ON => "ON" | OR => "OR" | ORDER => "ORDER"
  | OTHERS => "OTHERS" | OUTER => "OUTER" | OVER => "OVER" | PARTITION => "PARTITION"
  | PLAN => "PLAN" | PRAGMA => "PRAGMA" | PRECEDING => "PRECEDING"
  | PRIMARY => "PRIMARY" | QUERY => "QUERY" | RAISE => "RAISE" | RANGE => "RANGE"
  | RECURSIVE => "RECURSIVE" | REFERENCES => "REFERENCES" | REGEXP => "REGEXP"
  | REINDEX => "REINDEX" | RELEASE => "RELEASE" | RENAME => "RENAME"
  | REPLACE => "REPLACE" | RESTRICT => "RESTRICT" | RETURNING => "RETURNING"
  | RIGHT => "RIGHT" | ROLLBACK => "ROLLBACK" | ROW => "ROW" | ROWID => "ROWID"
  | ROWS => "ROWS" | SAVEPOINT => "SAVEPOINT" | SELECT => "SELECT" | SET => "SET"
  | STORED => "STORED" | STRICT => "STRICT" | TABLE => "TABLE" | TEMP => "TEMP"
  | TEMPORARY => "TEMPORARY" | THEN => "THEN" | TIES => "TIES" | TO => "TO"
  | TRANSACTION => "TRANSACTION" | TRIGGER => "TRIGGER" | TRUE => "TRUE"
  | UNBOUNDED => "UNBOUNDED" | UNION => "UNION" | UNIQUE => "UNIQUE"
  | UPDATE => "UPDATE" | USING => "USING" | VACUUM => "VACUUM" | VALUES => "VALUES"
  | VIEW => "VIEW" | VIRTUAL => "VIRTUAL" | WHEN => "WHEN" | WHERE => "WHERE"
  | WINDOW => "WINDOW" | WITH => "WITH" | WITHOUT => "WITHOUT"

/-- The keywords in alphabetical order. -/
def every : List Keyword :=
  [.ABORT, .ACTION, .ADD, .AFTER, .ALL, .ALTER, .ALWAYS, .ANALYZE, .AND, .AS, .ASC,
   .ATTACH, .AUTOINCREMENT, .BEFORE, .BEGIN, .BETWEEN, .BY, .CASCADE, .CASE, .CAST,
   .CHECK, .COLLATE, .COLUMN, .COMMIT, .CONFLICT, .CONSTRAINT, .CREATE, .CROSS,
   .CURRENT, .CURRENT_DATE, .CURRENT_TIME, .CURRENT_TIMESTAMP, .DATABASE, .DEFAULT,
   .DEFERRABLE, .DEFERRED, .DELETE, .DESC, .DETACH, .DISTINCT, .DO, .DROP, .EACH,
   .ELSE, .END, .ESCAPE, .EXCEPT, .EXCLUDE, .EXCLUSIVE, .EXISTS, .EXPLAIN, .FAIL,
   .FALSE, .FILTER, .FIRST, .FOLLOWING, .FOR, .FOREIGN, .FROM, .FULL, .GENERATED,
   .GLOB, .GROUP, .GROUPS, .HAVING, .IF, .IGNORE, .IMMEDIATE, .IN, .INDEX, .INDEXED,
   .INITIALLY, .INNER, .INSERT, .INSTEAD, .INTERSECT, .INTO, .IS, .ISNULL, .JOIN, .KEY,
   .LAST, .LEFT, .LIKE, .LIMIT, .MATCH, .MATERIALIZED, .NATURAL, .NO, .NOT, .NOTHING,
   .NOTNULL, .NULL, .NULLS, .OF, .OFFSET, .ON, .OR, .ORDER, .OTHERS, .OUTER, .OVER,
   .PARTITION, .PLAN, .PRAGMA, .PRECEDING, .PRIMARY, .QUERY, .RAISE, .RANGE,
   .RECURSIVE, .REFERENCES, .REGEXP, .REINDEX, .RELEASE, .RENAME, .REPLACE, .RESTRICT,
   .RETURNING, .RIGHT, .ROLLBACK, .ROW, .ROWID, .ROWS, .SAVEPOINT, .SELECT, .SET,
   .STORED, .STRICT, .TABLE, .TEMP, .TEMPORARY, .THEN, .TIES, .TO, .TRANSACTION,
   .TRIGGER, .TRUE, .UNBOUNDED, .UNION, .UNIQUE, .UPDATE, .USING, .VACUUM, .VALUES,
   .VIEW, .VIRTUAL, .WHEN, .WHERE, .WINDOW, .WITH, .WITHOUT]

/-- The folded spellings with their keywords. -/
def lexicon : List (List Char × Keyword) :=
  every.map fun keyword => (Text.fold keyword.spelling, keyword)

/-- The keyword that the text spells, in any case. -/
def ofText? (text : String) : Option Keyword :=
  lexicon.lookup (Text.fold text)

/-- Whether a name of this spelling has to be quoted. -/
def isReserved : Keyword → Bool
  | FALSE | ROWID | STORED | STRICT | TRUE => false
  | _ => true

/-- Every keyword is found again by its own spelling. -/
@[simp] theorem ofText?_spelling (keyword : Keyword) :
    ofText? keyword.spelling = some keyword := by
  have all : ∀ k ∈ every, ofText? k.spelling = some k := by decide +kernel
  exact all keyword (by cases keyword <;> decide +kernel)

/-- The case of the letters does not matter to which keyword a text is. -/
theorem ofText?_congr {s t : String} (h : Text.same s t = true) : ofText? s = ofText? t := by
  simp [ofText?, Text.same_iff.1 h]

/-- A text is only the keyword whose spelling it has. -/
theorem same_of_ofText? {text : String} {keyword : Keyword} (h : ofText? text = some keyword) :
    Text.same text keyword.spelling = true := by
  obtain ⟨before, after, split, -⟩ := List.lookup_eq_some_iff.1 h
  have member : (Text.fold text, keyword) ∈ lexicon := by simp [split]
  obtain ⟨other, -, entry⟩ := List.mem_map.1 member
  obtain ⟨same, rfl⟩ := Prod.mk.inj entry
  exact Text.same_iff.2 same.symm

end Keyword

end SchemaText
