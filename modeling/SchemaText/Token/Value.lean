import SchemaText.Token.Numeral

/-!
# What numerals amount to

The number that an integer stands for, in decimal or hexadecimal digits. Of the other
numerals only their order with respect to one is needed, and that is read off their digits.

A database also reads numerals whose digits are set apart by single underscores, as in
`1_000`, which are no tokens here.

## Main definitions

* `Numeral.isInteger`, `Numeral.isHex`: the shapes of numerals.
* `Numeral.value`: the number that an integer stands for.
* `Numeral.isAtMostOne`: whether a decimal numeral stands for a number up to one.
* `Numeral.joined?`: a numeral without the underscores between its digits.
-/

namespace SchemaText

namespace Numeral

/-! ### Integers -/

/-- The digits after `0x`, if the numeral begins with it. -/
def hexDigits? : List Char → Option (List Char)
  | '0' :: x :: digits => if x == 'x' || x == 'X' then some digits else none
  | _ => none

/-- Whether the numeral is hexadecimal. -/
def isHex (numeral : String) : Bool :=
  (hexDigits? numeral.toList).isSome

/-- Whether the numeral has neither a point nor an exponent. -/
def isInteger (numeral : String) : Bool :=
  isHex numeral || numeral.toList.all Char.isDigit

/-- What a digit counts. -/
def digitValue (c : Char) : Nat :=
  if c.isDigit then c.toNat - '0'.toNat else c.toLower.toNat - 'a'.toNat + 10

/-- The number that digits stand for. -/
def ofDigits (base : Nat) (digits : List Char) : Nat :=
  digits.foldl (fun number c => number * base + digitValue c) 0

/-- The number that an integer stands for. -/
def value (numeral : String) : Nat :=
  match hexDigits? numeral.toList with
  | some digits => ofDigits 16 digits
  | none => ofDigits 10 numeral.toList

/-! ### Decimal numerals -/

/-- The exponent of a decimal numeral, from what stands after its mantissa. -/
def power : List Char → Int
  | [] => 0
  | _ :: r =>
    if (sign r).1 == ['-'] then -(ofDigits 10 (sign r).2 : Int) else ofDigits 10 (sign r).2

/-- Whether a decimal numeral stands for a number up to one. Without its leading zeros it is
a fraction of the power of ten that the place of the point gives. -/
def isAtMostOne (numeral : String) : Bool :=
  let cs := numeral.toList
  let whole := cs.takeWhile Char.isDigit
  let digits := (mantissa cs).1.filter Char.isDigit
  let leading := digits.takeWhile (· == '0')
  let place : Int := whole.length - leading.length + power (mantissa cs).2
  match digits.dropWhile (· == '0') with
  | [] => true
  | first :: others => place ≤ 0 || place == 1 && first == '1' && others.all (· == '0')

/-! ### Digits set apart -/

/-- Whether every underscore of the text stands between two digits. -/
def separatesDigits (isDigit : Char → Bool) : List Char → Bool
  | before :: '_' :: after :: r =>
    isDigit before && isDigit after && separatesDigits isDigit (after :: r)
  | c :: r => c != '_' && separatesDigits isDigit r
  | [] => true

/-- The numeral that a text is without the underscores between its digits. -/
def joined? (text : String) : Option String :=
  let isDigit := if isHex text then Text.isHexDigit else Char.isDigit
  let bare := text.toList.filter (· != '_')
  match bare with
  | [] => none
  | c :: r =>
    if separatesDigits isDigit text.toList && starts c r && (scan bare).complete
        && (scan bare).rest.isEmpty then
      some (String.ofList bare)
    else
      none

end Numeral

end SchemaText
