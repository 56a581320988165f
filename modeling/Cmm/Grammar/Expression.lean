import Cmm.Cursor
import Cmm.Escape

/-!
# The grammar of expressions

Reference model of `Parser.expression` with `parse_or` to `parse_multiplicative`, `parse_unary`,
`parse_primary` and `call_arguments`.

    expression = operand, or two expressions with a binary operator between them
    operand    = constant | name | name ( arguments ) | name [ expression ]
               | ( expression ) | - operand | ! operand

Binary operators bind by tier and to the left. The productions are written over the operand they
are built on; `operand` closes the circle. Its fuel bounds the depth of nesting, and the number of
tokens that are left always suffices: at depth zero no token is left, and the end of the program is
no operand.
-/

set_option autoImplicit false

namespace Cmm.Grammar

open Parse

/-- An expression held back as a piece of an interrupted phrase. -/
def looseExpr (e : Expr) : List Item := [.loose (.expr e)]

/-- The binary operator of a tier that a kind of token stands for. -/
def operatorOf (tier : Tier) : Kind → Option BinOp
  | .punct mark => mark.binOp?.filter (·.tier = tier)
  | _ => none

/-- The operators of a tier and their right operands, behind a left operand. -/
def chain (tier : Tier) (operand : Parse Expr) : (fuel : Nat) → Expr → Parse Expr
  | 0, left => return left
  | fuel + 1, left => do
    match operatorOf tier (← kind) with
    | none => return left
    | some op =>
      advance
      let right ← holding (looseExpr left) operand
      chain tier operand fuel (.binary op left right)

/-- Operands with the operators of one tier between them. -/
def level (fuel : Nat) (tier : Tier) (operand : Parse Expr) : Parse Expr := do
  chain tier operand fuel (← operand)

/-- An expression over its operands: one level per tier, the loosest outermost. -/
def expressionOver (fuel : Nat) (operand : Parse Expr) : Parse Expr :=
  Tier.all.foldr (level fuel) operand

/-- The arguments of a call, with their parentheses. -/
def arguments (fuel : Nat) (expression : Parse Expr) : Parse (List Expr) := do
  expect .leftParen .callee
  let args ←
    if (← kind) = .punct .rightParen then pure []
    else commaSeparated expression looseExpr fuel
  holding (args.flatMap looseExpr) (expect .rightParen .arguments)
  return args

/-- An index, behind its opening bracket. -/
def index (expression : Parse Expr) : Parse Expr := do
  let index ← expression
  holding (looseExpr index) (expect .rightBracket .subscript)
  return index

/-- What begins with a name: a call, a subscript or a variable. -/
def named (fuel : Nat) (expression : Parse Expr) (name : String) (span : Span) : Parse Expr := do
  if (← kind) = .punct .leftParen then
    let args ← arguments fuel expression
    return .call name args (← spanFrom span)
  else if ← accept (.punct .leftBracket) then
    let i ← index expression
    return .element name i (← spanFrom span)
  else
    return .var name span

/-- An expression in parentheses, behind the opening one. -/
def parenthesized (expression : Parse Expr) (span : Span) : Parse Expr := do
  let inner ← expression
  holding (looseExpr inner) (expect .rightParen .parenthesized)
  return .paren inner (← spanFrom span)

/-- The byte of a character constant. -/
def charValue (lexeme : String) : UInt8 := (Escape.decodeByte (Literal.body lexeme)).getD 0

/-- The text of a string constant. -/
def stringText (lexeme : String) : String :=
  String.ofList ((Escape.decodeText (Literal.body lexeme)).getD [])

/-- One operand over the operands inside it. -/
def operandOver (fuel : Nat) (operand : Parse Expr) : Parse Expr := do
  let t ← next
  match t.kind with
  | .intLiteral =>
    advance
    return .int t.lexeme t.span
  | .charLiteral =>
    advance
    return .char (charValue t.lexeme) t.span
  | .stringLiteral =>
    advance
    return .string (stringText t.lexeme) t.span
  | .identifier =>
    advance
    named fuel (expressionOver fuel operand) t.lexeme t.span
  | .punct .leftParen =>
    advance
    parenthesized (expressionOver fuel operand) t.span
  | .punct mark =>
    match mark.unOp? with
    | some op =>
      advance
      return .unary op (← operand) t.span
    | none => fail .expression
  | _ => fail .expression

/-- An operand. -/
def operand : (fuel : Nat) → Parse Expr
  | 0 => fail .expression
  | fuel + 1 => operandOver fuel (operand fuel)

/-- An expression. -/
def expression (fuel : Nat) : Parse Expr := expressionOver fuel (operand fuel)

end Cmm.Grammar
