import Cmm.Lexeme

/-!
# Scanning

Reference model of `Scanner.scan_tokens`, `Scanner.make_token` and `Scanner.error_token`.

* `Scan` — the tokens of a text, ended by a mark, and the reports on its malformed pieces.
* `scan` — the segments of a text laid out at their byte offsets. A malformed piece is reported with
  its span and yields no token; of a comment that is never closed the report names the opening.
-/

set_option autoImplicit false

namespace Cmm

/-- The tokens of a text and the reports on what is no token. -/
structure Scan where
  tokens : List Token
  reports : List (Report LexicalFault)
  deriving DecidableEq, Repr

/-- The span a malformed piece is reported at. -/
def LexicalFault.span (f : LexicalFault) (offset size : Nat) : Span :=
  match f with
  | .openComment => ⟨offset, 2⟩
  | _ => ⟨offset, size⟩

namespace Scan

/-- The result at the end of the text. -/
def atEnd (offset : Nat) : Scan := ⟨[.endAt offset], []⟩

/-- Puts a segment that starts at `offset` in front. -/
def consSegment (s : Segment) (offset : Nat) (later : Scan) : Scan :=
  match s.piece with
  | .blank | .comment => later
  | .token kind => { later with tokens := ⟨kind, s.lexeme, ⟨offset, s.size⟩⟩ :: later.tokens }
  | .malformed fault =>
    { later with reports := ⟨fault, fault.span offset s.size⟩ :: later.reports }

/-- Segments laid out from a byte offset on. -/
def layOut : Nat → List Segment → Scan
  | offset, [] => atEnd offset
  | offset, s :: rest => consSegment s offset (layOut (offset + s.size) rest)

end Scan

/-- The tokens and the lexical reports of a text. -/
def scan (text : String) : Scan := Scan.layOut 0 (segments text.toList)

end Cmm
