/-!
# Decimal numerals

Reference model of the conversions in `Parser.parse_primary` (an integer constant) and
`Parser.variable_declarator` (an array size).

* `Numeral.value?` — the number that a non-empty row of decimal digits stands for.
* `Numeral.constant?` — an integer constant: an optional sign, and a value that fits 64 bits.
* `Numeral.size?` — an array size: an optional plus sign, and a value that fits 32 bits.
-/

set_option autoImplicit false

namespace Cmm.Numeral

/-- The value of a decimal digit. -/
def digit (c : Char) : Nat := c.toNat - '0'.toNat

/-- The number that a non-empty row of decimal digits stands for. -/
def value? (digits : List Char) : Option Nat :=
  if digits ≠ [] ∧ digits.all Char.isDigit then
    some (digits.foldl (fun n c => 10 * n + digit c) 0)
  else none

/-- Where integer constants end: two to the power of 63. -/
def constantLimit : Nat := 9223372036854775808

/-- Where array sizes end: two to the power of 32. -/
def sizeLimit : Nat := 4294967296

/-- The value of an integer constant, if it fits 64 bits with a sign. -/
def constant? (lexeme : String) : Option Int :=
  match lexeme.toList with
  | '-' :: digits => ((value? digits).filter (· ≤ constantLimit)).map fun n => -(n : Int)
  | '+' :: digits => ((value? digits).filter (· < constantLimit)).map fun n => (n : Int)
  | digits => ((value? digits).filter (· < constantLimit)).map fun n => (n : Int)

/-- The value of an array size, if it fits 32 bits. -/
def size? (lexeme : String) : Option Nat :=
  match lexeme.toList with
  | '+' :: digits => (value? digits).filter (· < sizeLimit)
  | digits => (value? digits).filter (· < sizeLimit)

end Cmm.Numeral
