/-!
# Escapes

Reference model of `escape`, `unescape_string`, `unescape_char` and `strip_quotes`.

* `Escape.meaning` — the character that stands behind a backslash stands for.
* `Escape.decodeText` — the body of a string constant; `Escape.decodeByte` — that of a character
  constant. Both fail on an unknown escape and on a character beyond ASCII.
* `Literal.body` — the text between the quotes of a constant.
-/

set_option autoImplicit false

namespace Cmm

namespace Escape

/-- What a backslash and this character stand for. -/
def meaning : Char → Option Char
  | 'n' => some '\n'
  | '0' => some (Char.ofNat 0)
  | '\\' => some '\\'
  | '\'' => some '\''
  | '"' => some '"'
  | _ => none

/-- A character that a constant may hold as it is. -/
def isAscii (c : Char) : Bool := c.val < 128

/-- The text a string body stands for. -/
def decodeText : List Char → Option (List Char)
  | [] => some []
  | ['\\'] => none
  | '\\' :: e :: rest =>
    match meaning e, decodeText rest with
    | some c, some text => some (c :: text)
    | _, _ => none
  | c :: rest => if isAscii c then (decodeText rest).map (c :: ·) else none

/-- The byte a character body stands for. -/
def decodeByte : List Char → Option UInt8
  | [c] => if isAscii c && c != '\\' then some c.val.toUInt8 else none
  | ['\\', e] => (meaning e).map (·.val.toUInt8)
  | _ => none

end Escape

/-- The text between the quotes of a constant: all but the first and the last character. A text
without two such characters of one byte each has an empty body. -/
def Literal.body (lexeme : String) : List Char :=
  match lexeme.toList with
  | [] => []
  | first :: rest =>
    match rest.getLast? with
    | none => []
    | some last => if first.utf8Size = 1 ∧ last.utf8Size = 1 then rest.dropLast else []

end Cmm
