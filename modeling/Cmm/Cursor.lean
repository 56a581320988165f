import Cmm.Fault
import Cmm.Phrase

/-!
# Reading tokens

Reference model of how `Parser` moves over its tokens: `peek`, `advance`, `check`, `check_next`,
`match_token`, `expect`, `expect_identifier` and `error_at_current`.

* `Cursor` — the tokens that are left, in front of the mark that ends them.
* `Interruption` — the token at which no program continues, and the items that were complete
  before it.
* `Parse` — what reads a phrase: it moves the cursor on or is interrupted.
* `Parse.holding` — keeps items that are complete for the case that what follows is interrupted.
-/

set_option autoImplicit false

namespace Cmm

/-- A place in a list of tokens. -/
structure Cursor where
  /-- The span of the token before. -/
  last : Span
  rest : List Token
  /-- The mark behind the last token. -/
  stop : Token
  deriving DecidableEq

namespace Cursor

def isEnd (t : Token) : Bool := t.kind == .endOfFile

/-- The beginning of a list of tokens. Its first end mark ends it; without one, the end of its last
token does. -/
def start (tokens : List Token) : Cursor :=
  let offset := (tokens.getLast?.map (·.span.stop)).getD 0
  ⟨⟨0, 0⟩, tokens.takeWhile (!isEnd ·), (tokens.find? isEnd).getD (.endAt offset)⟩

/-- The token at the cursor. -/
def next (c : Cursor) : Token := c.rest.headD c.stop

/-- The kind of the token behind the one at the cursor. -/
def kindBehind (c : Cursor) : Kind :=
  match c.rest with
  | _ :: t :: _ => t.kind
  | _ => .endOfFile

/-- The cursor behind the token at it; it stays in front of the end mark. -/
def advance (c : Cursor) : Cursor :=
  match c.rest with
  | t :: rest => { c with last := t.span, rest }
  | [] => c

end Cursor

/-- Where reading was interrupted, and what was complete before. -/
structure Interruption where
  complete : List Item
  fault : SyntaxFault

/-- Reads a phrase. -/
abbrev Parse (α : Type) := StateT Cursor (Except Interruption) α

namespace Parse

variable {α : Type}

/-- The token at the cursor. -/
def next : Parse Token := return (← get).next

/-- The kind of the token at the cursor. -/
def kind : Parse Kind := return (← get).next.kind

/-- The kind of the token behind it. -/
def kindBehind : Parse Kind := return (← get).kindBehind

/-- Moves behind the token at the cursor. -/
def advance : Parse Unit := modify Cursor.advance

/-- The span from a first one to the end of the token before the cursor. -/
def spanFrom (first : Span) : Parse Span := return first.hull (← get).last

/-- Stops at the cursor, where something else was expected. -/
def fail (expected : Expected) : Parse α := do
  throw ⟨[], ⟨expected, ← next⟩⟩

/-- Keeps items that are complete for the case that what follows is interrupted. -/
def holding (items : List Item) (parse : Parse α) : Parse α := fun c =>
  match parse c with
  | .ok result => .ok result
  | .error i => .error { i with complete := items ++ i.complete }

/-- Moves behind a token of a kind, if it is at the cursor. -/
def accept (kind : Kind) : Parse Bool := do
  if (← Parse.kind) = kind then
    advance
    return true
  else
    return false

/-- Moves behind a token of a kind that has to be there. -/
def require (kind : Kind) (expected : Expected) : Parse Token := do
  let t ← next
  if t.kind = kind then
    advance
    return t
  else
    fail expected

/-- Moves behind a mark that has to be there. -/
def expect (mark : Punct) (place : Place) : Parse Unit := do
  let _ ← require (.punct mark) (.mark mark place)

/-- Reads a name. -/
def name (role : NameRole) : Parse (String × Span) := do
  let t ← require .identifier (.name role)
  return (t.lexeme, t.span)

/-- Reads one or more phrases with commas between them; the fuel bounds their number. -/
def commaSeparated (parse : Parse α) (items : α → List Item) : (fuel : Nat) → Parse (List α)
  | 0 => return [← parse]
  | fuel + 1 => do
    let a ← parse
    if ← accept (.punct .comma) then
      return a :: (← holding (items a) (commaSeparated parse items fuel))
    else
      return [a]

end Parse

end Cmm
