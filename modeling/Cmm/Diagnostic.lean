import Cmm.Fault
import Cmm.Styled

/-!
# Diagnostics

Reference model of `Diagnostic` and how it is displayed, and of `DiagnosticReporter.report`.

* `Diagnostic` — a fault in words, with the location and the source line where they are known.
* `Report.diagnostic` — a report as a diagnostic of a given source.
* `Diagnostic.render` — the message, then the source line with carets under the reported span, then
  the hint and the notes.
* `Log` — the diagnostics of one source, in the order they came in.
-/

set_option autoImplicit false

namespace Cmm

/-- A fault in words. -/
structure Diagnostic where
  code : String
  message : String
  hint? : Option String
  notes : List String
  location? : Option Location
  line? : Option String
  deriving DecidableEq, Repr

namespace Diagnostic

/-- The diagnostic at a span of a source. -/
def placed (d : Diagnostic) (src : Source) (span : Span) : Diagnostic :=
  let location := src.locate span
  { d with location? := some location, line? := some (src.lineText location.line) }

/-- A text repeated. -/
def times (n : Nat) (c : Char) : String := String.ofList (List.replicate n c)

/-- The source line and the carets under it. -/
def excerpt (padding : String) (location : Location) (line : String) : List Run :=
  [.styled .boldBlue (toString location.line), .plain " ", .styled .blue "|",
    .plain (" " ++ line ++ "\n" ++ padding ++ " "), .styled .blue "|",
    .plain (" " ++ times (location.column - 1) ' '),
    .styled .boldRed (times (max location.length 1) '^'), .plain "\n"]

/-- The arrow line, the excerpt and the margins above and below it. -/
def placeRuns (location : Location) (line? : Option String) : List Run :=
  let padding := times (toString location.line).length ' '
  let margin : List Run := [.plain (padding ++ " "), .styled .blue "|", .plain "\n"]
  [.plain (padding ++ "--> "), .styled .blue location.text, .plain "\n"] ++ margin ++
    (match line? with
    | some line => excerpt padding location line
    | none => []) ++ margin

/-- A remark under the excerpt. -/
def remark (style : Style) (title text : String) : List Run :=
  [.plain "   ", .styled .blue "=", .plain " ", .styled style title, .plain (": " ++ text ++ "\n")]

/-- The diagnostic in runs. -/
def runs (d : Diagnostic) : List Run :=
  [.styled .boldRed "error", .plain "[", .styled .cyan d.code,
    .plain ("]: " ++ d.message ++ "\n")] ++
    (match d.location? with
    | some location => placeRuns location d.line?
    | none => []) ++
    (match d.hint? with
    | some hint => remark .boldGreen "help" hint
    | none => []) ++
    d.notes.flatMap (remark .boldCyan "note")

/-- The diagnostic as it is printed. -/
def render (colour : Bool) (d : Diagnostic) : String := Run.render colour d.runs

end Diagnostic

/-- A fault in words, without a place. -/
def Fault.diagnostic (f : Fault) (src : Source) : Diagnostic :=
  ⟨f.code, f.message, f.hint?, f.notes fun span => (src.locate span).text, none, none⟩

/-- A report as a diagnostic of a source. -/
def Report.diagnostic (r : Report Fault) (src : Source) : Diagnostic :=
  (r.fault.diagnostic src).placed src r.span

/-- The diagnostics of one source, in the order they came in. -/
structure Log where
  source : Source
  entries : List Diagnostic

namespace Log

/-- A log without entries. -/
def empty (source : Source) : Log := ⟨source, []⟩

/-- Adds a diagnostic at a span. -/
def add (log : Log) (d : Diagnostic) (span : Span) : Log :=
  { log with entries := log.entries ++ [d.placed log.source span] }

def hasErrors (log : Log) : Bool := !log.entries.isEmpty

def errorCount (log : Log) : Nat := log.entries.length

/-- The number of entries with a code. -/
def count (log : Log) (code : String) : Nat := log.entries.countP (·.code == code)

end Log

end Cmm
