import SchemaText.Catalog.Error

/-!
# The functions of the database

An expression can call the functions that every connection has. A name may stand for several
functions that take different numbers of arguments: `max` of one argument sums up the rows of
a group, `max` of two arguments compares them.

## Main definitions

* `Catalog.FunctionKind`, `Catalog.Function`: what is known of a function.
* `Catalog.functions`: the functions that exist.
* `Catalog.findFunction`: the function that a call means.

-/

namespace SchemaText

namespace Catalog

/-- What the result of a function depends on. -/
inductive FunctionKind
  /-- On its arguments alone. -/
  | steady
  /-- On the moment of the call as well. -/
  | varying
  /-- On the moment of the call as well, and no definition may hold a call. -/
  | direct
  /-- On the rows of a group. -/
  | aggregate
  /-- On the rows around the current one. -/
  | window
  deriving DecidableEq, Repr

/-- What is known of a function. -/
structure Function where
  /-- The name. -/
  name : String
  /-- The least number of arguments. -/
  least : Nat
  /-- The greatest number of arguments, if there is a bound. -/
  most : Option Nat
  /-- What the result depends on. -/
  kind : FunctionKind
  deriving DecidableEq, Repr

/-- Functions that differ in their names only. -/
def family (kind : FunctionKind) (least : Nat) (most : Option Nat) (names : List String) :
    List Function :=
  names.map fun name => ⟨name, least, most, kind⟩

/-! ### The functions that exist -/

/-- The functions whose result depends on their arguments alone. Those of date and time are
among them: that the current time may not be asked for comes out only when they are called. -/
def steadyFunctions : List Function :=
  List.flatten [
    family .steady 0 (some 0) ["fts5_source_id"],
    family .steady 0 none [
      "char", "date", "datetime", "format", "json_array", "json_extract", "json_insert",
      "json_object", "json_remove", "json_replace", "json_set", "jsonb_array",
      "jsonb_extract", "jsonb_insert", "jsonb_object", "jsonb_remove", "jsonb_replace",
      "jsonb_set", "julianday", "printf", "strftime", "time", "unixepoch"],
    family .steady 1 (some 1) [
      "abs", "hex", "json", "json_error_position", "json_quote", "jsonb", "length", "likely",
      "lower", "octet_length", "quote", "sign", "soundex", "subtype", "typeof", "unicode",
      "unistr", "unistr_quote", "unlikely", "upper", "zeroblob"],
    family .steady 1 (some 2) [
      "json_array_length", "json_pretty", "json_type", "json_valid", "ltrim", "round",
      "rtrim", "trim", "unhex"],
    family .steady 1 none ["concat"],
    family .steady 2 (some 2) [
      "->", "->>", "glob", "ifnull", "instr", "json_patch", "jsonb_patch", "likelihood",
      "nullif", "sqlite_log", "timediff"],
    family .steady 2 (some 3) ["like", "substr", "substring"],
    family .steady 2 none ["coalesce", "concat_ws", "if", "iif", "max", "min"],
    family .steady 3 (some 3) ["replace"]]

/-- The functions whose result depends on the moment of the call. -/
def varyingFunctions : List Function :=
  List.flatten [
    family .varying 0 (some 0) [
      "changes", "current_date", "current_time", "current_timestamp", "last_insert_rowid",
      "random", "sqlite_source_id", "sqlite_version", "total_changes"],
    family .varying 0 none ["bm25", "fts5_get_locale", "highlight", "rtreecheck", "snippet"],
    family .varying 1 (some 1) [
      "fts5", "fts5_insttoken", "offsets", "optimize", "randomblob", "rtreedepth",
      "sqlite_compileoption_get", "sqlite_compileoption_used"],
    family .varying 1 (some 2) ["matchinfo"],
    family .varying 2 (some 2) ["fts5_locale", "match", "rtreenode"],
    family .direct 1 (some 2) ["fts3_tokenizer", "load_extension"]]

/-- The functions of several rows. -/
def groupFunctions : List Function :=
  List.flatten [
    family .aggregate 0 (some 1) ["count"],
    family .aggregate 1 (some 1) [
      "avg", "json_group_array", "jsonb_group_array", "max", "min", "sum", "total"],
    family .aggregate 1 (some 2) ["group_concat"],
    family .aggregate 2 (some 2) ["json_group_object", "jsonb_group_object", "string_agg"],
    family .window 0 (some 0) [
      "cume_dist", "dense_rank", "percent_rank", "rank", "row_number"],
    family .window 1 (some 1) ["first_value", "last_value", "ntile"],
    family .window 1 (some 3) ["lag", "lead"],
    family .window 2 (some 2) ["nth_value"]]

/-- The functions that exist. -/
def functions : List Function :=
  steadyFunctions ++ varyingFunctions ++ groupFunctions

/-! ### Calls -/

/-- Whether the function has this name, in any case, and takes so many arguments. -/
def Function.accepts (function : Function) (name : String) (count : Nat) : Bool :=
  Text.same function.name name && function.least ≤ count && function.most.all (count ≤ ·)

/-- The function that a call of a name with so many arguments means. -/
def findFunction (name : String) (count : Nat) : Except CatalogError Function :=
  match functions.find? (·.accepts name count) with
  | some function => .ok function
  | none =>
    if functions.any fun function => Text.same function.name name then
      .error (.argumentCount name)
    else
      .error (.noFunction name)

/-- Whether a name with so many arguments stands for a function that depends on them alone. -/
def isSteady (name : String) (count : Nat) : Bool :=
  steadyFunctions.any (·.accepts name count)

/-! ### Functions with a part of their own -/

/-- Whether the call only says how likely its first argument is to be true. -/
def isEstimate (name : String) : Bool :=
  ["likelihood", "likely", "unlikely"].any (Text.same name)

/-- Whether the call compares its arguments with each other. -/
def comparesArguments (name : String) : Bool :=
  ["max", "min", "nullif"].any (Text.same name)

end Catalog

end SchemaText
