import Cmm.Escape
import Cmm.Fault
import Cmm.Identifier

/-!
# Pieces of source text

Reference model of `Scanner.skip_whitespace_and_comments` and of the branches of
`Scanner.scan_token`: `match_compound`, `match_pair`, `scan_identifier`, `scan_number`,
`scan_string` and `scan_char`.

A text falls apart into segments, each one blank, a comment, a token or malformed. The first
character decides the kind of piece; how far the piece reaches depends on what follows.

* `Piece` — what a stretch of text is.
* `Lexeme.pieceAt` — the piece a text begins with and the number of its characters after the first.
* `Segment`, `segments` — the whole text cut into pieces; nothing is skipped and nothing overlaps.
-/

set_option autoImplicit false

namespace Cmm

/-- What a stretch of text is. -/
inductive Piece where
  | blank
  | comment
  | token (kind : Kind)
  | malformed (fault : LexicalFault)
  deriving DecidableEq, Repr

namespace Lexeme

/-- Space, tab, carriage return and newline stand between tokens. -/
def isBlank (c : Char) : Bool := c == ' ' || c == '\t' || c == '\r' || c == '\n'

/-- The length of the longest start of a text that satisfies `p` throughout. -/
def runLength (p : Char → Bool) (cs : List Char) : Nat := (cs.takeWhile p).length

/-- The mark a text begins with and the number of its characters after the first. Where two marks
fit, the longer one does. -/
def mark? (c : Char) (cs : List Char) : Option (Punct × Nat) :=
  let orLonger (next : Char) (long short : Punct) : Option (Punct × Nat) :=
    if cs.head? = some next then some (long, 1) else some (short, 0)
  match c with
  | '(' => some (.leftParen, 0)
  | ')' => some (.rightParen, 0)
  | '{' => some (.leftBrace, 0)
  | '}' => some (.rightBrace, 0)
  | '[' => some (.leftBracket, 0)
  | ']' => some (.rightBracket, 0)
  | ',' => some (.comma, 0)
  | ';' => some (.semicolon, 0)
  | '+' => some (.plus, 0)
  | '-' => some (.minus, 0)
  | '*' => some (.star, 0)
  | '/' => some (.slash, 0)
  | '!' => orLonger '=' .bangEqual .bang
  | '=' => orLonger '=' .equalEqual .equal
  | '<' => orLonger '=' .lessEqual .less
  | '>' => orLonger '=' .greaterEqual .greater
  | '&' => if cs.head? = some '&' then some (.andAnd, 1) else none
  | '|' => if cs.head? = some '|' then some (.orOr, 1) else none
  | _ => none

/-- The number of characters up to the end of a block comment that is open. -/
def blockLength? : List Char → Option Nat
  | [] => none
  | '*' :: '/' :: _ => some 2
  | _ :: rest => (blockLength? rest).map (· + 1)

/-- The comment a text begins with, if the first character is a slash. -/
def comment? : List Char → Option (Piece × Nat)
  | '/' :: rest => some (.comment, 1 + runLength (· != '\n') rest)
  | '*' :: rest =>
    match blockLength? rest with
    | some n => some (.comment, 1 + n)
    | none => some (.malformed .openComment, 1 + rest.length)
  | _ => none

/-- How far an open string constant reaches, and whether a quote closes it there. A backslash takes
the character behind it along, but nothing reaches over a newline. -/
def stringReach : List Char → Nat × Bool
  | [] => (0, false)
  | '"' :: _ => (1, true)
  | '\n' :: _ => (0, false)
  | ['\\'] => (1, false)
  | '\\' :: e :: rest =>
    if e = '\n' then (1, false) else
    let (n, closed) := stringReach rest
    (n + 2, closed)
  | _ :: rest =>
    let (n, closed) := stringReach rest
    (n + 1, closed)

/-- The string constant behind an opening quote. -/
def stringPiece (cs : List Char) : Piece × Nat :=
  match stringReach cs with
  | (n, true) =>
    match Escape.decodeText (cs.take (n - 1)) with
    | some _ => (.token .stringLiteral, n)
    | none => (.malformed (.badEscape .string), n)
  | (n, false) => (.malformed .openString, n)

/-- A closed character constant with the given body. -/
def closedChar (body : List Char) : Piece :=
  match Escape.decodeByte body with
  | some _ => .token .charLiteral
  | none => .malformed (.badEscape .char)

/-- The character constant behind an opening quote. -/
def charPiece : List Char → Piece × Nat
  | [] => (.malformed (.openChar false), 0)
  | '\n' :: _ => (.malformed (.openChar false), 1)
  | '\'' :: _ => (.malformed .emptyChar, 1)
  | '\\' :: e :: '\'' :: _ => (closedChar ['\\', e], 3)
  | '\\' :: _ :: _ => (.malformed (.openChar true), 2)
  | '\\' :: [] => (.malformed (.openChar true), 1)
  | c :: '\'' :: _ => (closedChar [c], 2)
  | _ :: _ => (.malformed (.openChar true), 1)

/-- The number that begins with digit `c`. Digits that run on into a word are no token. -/
def numberPiece (c : Char) (cs : List Char) : Piece × Nat :=
  let digits := runLength Char.isDigit cs
  let word := runLength Identifier.isContinue (cs.drop digits)
  if word = 0 then (.token .intLiteral, digits)
  else
    (.malformed (.badNumber (String.ofList (c :: cs.take (digits + word)))), digits + word)

/-- The word that begins with letter `c`. -/
def wordPiece (c : Char) (cs : List Char) : Piece × Nat :=
  let n := runLength Identifier.isContinue cs
  (.token (.ofWord (String.ofList (c :: cs.take n))), n)

/-- The piece that begins with `c`, where neither a blank nor a comment nor a mark does. -/
def plainPiece (c : Char) (cs : List Char) : Piece × Nat :=
  if c = '"' then stringPiece cs
  else if c = '\'' then charPiece cs
  else if c.isDigit then numberPiece c cs
  else if Identifier.isStart c then wordPiece c cs
  else (.malformed (.unexpected c), 0)

/-- The piece a text begins with and the number of its characters after the first. -/
def pieceAt (c : Char) (cs : List Char) : Piece × Nat :=
  if isBlank c then (.blank, runLength isBlank cs) else
  match if c = '/' then comment? cs else none with
  | some found => found
  | none =>
    match mark? c cs with
    | some (mark, n) => (.token (.punct mark), n)
    | none => plainPiece c cs

end Lexeme

/-- A piece with its text. -/
structure Segment where
  piece : Piece
  text : List Char
  deriving DecidableEq, Repr

/-- A text cut into pieces. -/
def segments : List Char → List Segment
  | [] => []
  | c :: cs =>
    let (piece, n) := Lexeme.pieceAt c cs
    ⟨piece, c :: cs.take n⟩ :: segments (cs.drop n)
termination_by text => text.length

namespace Segment

/-- The text of a segment. -/
def lexeme (s : Segment) : String := String.ofList s.text

/-- The number of bytes of a segment. -/
def size (s : Segment) : Nat := s.lexeme.utf8ByteSize

end Segment

end Cmm
