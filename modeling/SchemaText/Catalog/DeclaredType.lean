import SchemaText.Catalog.Formula.Basic
import SchemaText.Catalog.Reader

/-!
# Declared types

What the catalogue shows as the type of a column is nearly what the definition says. The
words `GENERATED ALWAYS` at its end belong to the rule of a generated column, quotes around
the whole type fall away, and the six standard types are shown in capital letters.

## Main definitions

* `Catalog.standardTypes`: the types in capital letters.
* `Catalog.declaredType`: the type that the catalogue shows.
* `Catalog.resultType`: the type of a column that holds the result of a query.
-/

namespace SchemaText

namespace Catalog

/-- The types that are shown in capital letters. -/
def standardTypes : List String :=
  ["ANY", "BLOB", "INT", "INTEGER", "REAL", "TEXT"]

/-- The text without a word at its end and the blanks before it; none if it does not end in
the word, in any case. -/
def withoutLastWord? (word : String) (cs : List Char) : Option (List Char) :=
  let before := cs.length - word.length
  if Text.same (String.ofList (cs.drop before)) word then
    some ((cs.take before).reverse.dropWhile Text.isBlank).reverse
  else
    none

/-- The type without `GENERATED ALWAYS` at its end. A text too short for both words is left
alone; of a longer one `ALWAYS` goes even without `GENERATED` before it. -/
def withoutGenerated (cs : List Char) : List Char :=
  if (String.ofList cs).utf8ByteSize < "GENERATED ALWAYS".utf8ByteSize then cs
  else
    match withoutLastWord? "ALWAYS" cs with
    | none => cs
    | some rest => (withoutLastWord? "GENERATED" rest).getD rest

/-- Whether the character opens a quoted token. -/
def isQuote (c : Char) : Bool :=
  c == '\x22' || c == '\x27' || c == '\x60' || c == '['

/-- The text without its first and last character, if it begins with a quote and no other
quote stands between the two. -/
def withoutOuterQuotes (cs : List Char) : List Char :=
  match cs with
  | first :: rest =>
    if isQuote first && !rest.dropLast.any isQuote then rest.dropLast else cs
  | [] => cs

/-- The content of a text that begins with a quote, up to the quote that closes it; any other
text as it is. -/
def unquoted (cs : List Char) : List Char :=
  match cs with
  | first :: rest =>
    if isQuote first then
      ((Lexer.close (if first == '[' then ']' else first) rest).map (·.1)).getD rest
    else cs
  | [] => cs

/-- The type that the catalogue shows for a type as it is written. -/
def declaredType (type : String) : String :=
  let plain := withoutGenerated type.toList
  let inner := if plain.length < 3 then plain else withoutOuterQuotes plain
  match standardTypes.find? (Text.same (String.ofList inner)) with
  | some standard => standard
  | none => String.ofList (unquoted inner)

/-! ### Results of queries -/

/-- Whether the word is part of the text. -/
def holdsWord (word : List Char) : List Char → Bool
  | [] => word.isEmpty
  | c :: r => word.isPrefixOf (c :: r) || holdsWord word r

/-- The short name of the kind of values that a type stands for. The words in the type tell
it, and the first line here with one of them counts. -/
def storageName (type : String) : String :=
  let holds := fun word => holdsWord (Text.fold word) (Text.fold type)
  if holds "int" then "INT"
  else if ["char", "clob", "text"].any holds then "TEXT"
  else if holds "blob" then ""
  else if ["real", "floa", "doub"].any holds then "REAL"
  else "NUM"

/-- The type of a column that holds the result of a query. Only a cast gives it one; numbers
of all kinds are of one type unless a collation stands around the cast. -/
def resultType (formula : Formula) : String :=
  match formula, formula.core with
  | .node (.cast type) _, _ =>
    if ["INT", "REAL"].contains (storageName type) then "NUM" else storageName type
  | _, .node (.cast type) _ => storageName type
  | _, _ => ""

end Catalog

end SchemaText
