import SchemaText.Text.Printable

/-!
# Quoted texts

Two ways to put a text between quotes.

* In messages (`Text.quoted`): double quotes, with `"` and `\` behind a backslash, short
  names for line feed, tab, carriage return and NUL, and `\u{…}` with the code point in
  hexadecimal for every other character that is not printable.
* In SQL (`Text.enclose`): a quote character inside the text is written twice.

## Main results

* `Text.toList_enclose`: an enclosed text is its doubled content between two quotes.
-/

namespace SchemaText

namespace Text

/-! ### In messages -/

/-- The spelling of one character inside a quoted text. -/
def escapeChar (c : Char) : List Char :=
  match c with
  | '"' => ['\\', '"']
  | '\\' => ['\\', '\\']
  | '\n' => ['\\', 'n']
  | '\t' => ['\\', 't']
  | '\r' => ['\\', 'r']
  | '\x00' => ['\\', '0']
  | c =>
    if isPrintable c then
      [c]
    else
      ['\\', 'u', '\x7b'] ++ Nat.toDigits 16 c.toNat ++ ['\x7d']

/-- The text between double quotes, as messages show it. -/
def quoted (s : String) : String :=
  String.ofList ('"' :: s.toList.flatMap escapeChar ++ ['"'])

/-- A text that may be missing, as messages show it: `Some("…")` or `None`. -/
def quotedOption : Option String → String
  | some s => "Some(" ++ quoted s ++ ")"
  | none => "None"

/-- A list of texts, as messages show it: `["…", "…"]`. -/
def quotedList (texts : List String) : String :=
  "[" ++ ", ".intercalate (texts.map quoted) ++ "]"

/-! ### In SQL -/

/-- The content of a quoted form: each quote character stands twice. -/
def doubled (quote : Char) : List Char → List Char
  | [] => []
  | c :: r => if c = quote then c :: c :: doubled quote r else c :: doubled quote r

/-- The text between quote characters, with those inside it written twice. -/
def enclose (quote : Char) (s : String) : String :=
  String.ofList (quote :: doubled quote s.toList ++ [quote])

/-- An enclosed text begins and ends with the quote, and doubles it within. -/
theorem toList_enclose (quote : Char) (s : String) :
    (enclose quote s).toList = quote :: doubled quote s.toList ++ [quote] := by
  simp [enclose]

end Text

end SchemaText
