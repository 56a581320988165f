/-!
# Quoted text

Reference model of the quoting in `Scanner.scan_token` and in the tree listing of `Driver.compile`.

* `Quoted.char` — a character as messages quote it.
* `Quoted.text` — a text in double quotes, as tree listings show it.

Both show printable ASCII as it is but for the backslash and the quotes that would end the text;
tab, newline and carriage return have short forms; any other character is written by its number.
-/

set_option autoImplicit false

namespace Cmm.Quoted

/-- A character written by its number. -/
def byNumber (c : Char) : String :=
  "\\u\x7b" ++ String.ofList (Nat.toDigits 16 c.toNat) ++ "\x7d"

/-- A character that is shown as it is. -/
def isPrintable (c : Char) : Bool := ' ' ≤ c && c ≤ '~'

/-- A character as messages quote it. -/
def char : Char → String
  | '\t' => "\\t"
  | '\n' => "\\n"
  | '\r' => "\\r"
  | '\\' => "\\\\"
  | '\'' => "\\'"
  | '"' => "\\\""
  | c => if isPrintable c then c.toString else byNumber c

/-- A character inside double quotes. -/
def inText (c : Char) : String :=
  if c = '\'' then "'" else if c = Char.ofNat 0 then "\\0" else char c

/-- A text in double quotes. -/
def text (s : String) : String := "\"" ++ String.join (s.toList.map inText) ++ "\""

end Cmm.Quoted
