import Cmm.Span

/-!
# Source text by lines

Reference model of `DiagnosticReporter.locate` and `DiagnosticReporter.line_text`.

* `Text.lines` — a text cut at its newlines; a text with `n` newlines has `n + 1` lines.
* `Source` — a named text, kept by lines.
* `Source.locate` — the line and the byte column of a span. An offset on a newline belongs to the
  line that the newline ends; an offset past the end of the text is shown on the first line.
-/

set_option autoImplicit false

namespace Cmm

namespace Text

/-- Puts a character in front of the first line. -/
def consLine (c : Char) : List (List Char) → List (List Char)
  | [] => [[c]]
  | line :: rest => (c :: line) :: rest

/-- The lines of a text, without the newlines between them. -/
def lines (text : List Char) : List (List Char) :=
  text.foldr (fun c rest => if c = '\n' then [] :: rest else consLine c rest) [[]]

theorem lines_cons (c : Char) (text : List Char) :
    lines (c :: text) = if c = '\n' then [] :: lines text else consLine c (lines text) := rfl

end Text

/-- A resolved position: 1-based line, 1-based byte column and length in bytes. -/
structure Location where
  file : String
  line : Nat
  column : Nat
  length : Nat
  deriving DecidableEq, Repr

/-- The location as messages quote it. -/
def Location.text (l : Location) : String := s!"{l.file}:{l.line}:{l.column}"

/-- A named text, kept by lines. -/
structure Source where
  file : String
  lines : List String

namespace Source

/-- The source of a text. -/
def ofText (file text : String) : Source :=
  ⟨file, (Text.lines text.toList).map String.ofList⟩

/-- The text of a 1-based line, empty when there is none. -/
def lineText (src : Source) : Nat → String
  | 0 => ""
  | n + 1 => src.lines.getD n ""

/-- The first line that reaches byte `offset`, as its number and its first byte; `number` and
`start` are those of the first line given. -/
def lineAt (offset number start : Nat) : List String → Option (Nat × Nat)
  | [] => none
  | line :: rest =>
    if offset ≤ start + line.utf8ByteSize then some (number, start)
    else lineAt offset (number + 1) (start + line.utf8ByteSize + 1) rest

/-- The location of a span. -/
def locate (src : Source) (span : Span) : Location :=
  let (line, start) := (lineAt span.offset 1 0 src.lines).getD (1, 0)
  ⟨src.file, line, span.offset - start + 1, span.length⟩

end Source

end Cmm
