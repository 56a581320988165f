import Cmm.Grammar.Expression

/-!
# The grammar of statements

Reference model of `Parser.statement` with `if_statement`, `while_statement`, `for_statement`,
`return_statement`, `assignment` and `call_statement`.

    statement  = if ( expression ) statement [ else statement ]
               | while ( expression ) statement
               | for ( [assignment] ; [expression] ; [assignment] ) statement
               | return [expression] ; | assignment ; | name ( arguments ) ;
               | { statements } | ;
    assignment = name [ [ expression ] ] = expression

As with operands, the productions are written over the statement they are built on, and the fuel of
`statement` bounds the depth of nesting.
-/

set_option autoImplicit false

namespace Cmm.Grammar

open Parse

/-- A statement held back as a piece of an interrupted phrase. -/
def looseStmt (s : Stmt) : List Item := [.loose (.stmt s)]

/-- A part that is missing where a mark stands. -/
def optionalBefore {α : Type} (mark : Punct) (parse : Parse α) : Parse (Option α) := do
  if (← kind) = .punct mark then return none else return some (← parse)

/-- The left side of an assignment. -/
def target (fuel : Nat) : Parse (Target × Span) := do
  let (name, span) ← name .object
  if ← accept (.punct .leftBracket) then
    let i ← index (expression fuel)
    return (.element name i (← spanFrom span), span)
  else
    return (.var name span, span)

/-- An assignment, without the semicolon. -/
def assignment (fuel : Nat) : Parse Assign := do
  let (target, span) ← target fuel
  let value ← holding [.loose (.target target)] do
    expect .equal .target
    expression fuel
  return ⟨target, value, ← spanFrom span⟩

/-- An assignment held back as a piece of an interrupted phrase. -/
def looseAssign (a : Assign) : List Item := [.loose (.assign a)]

/-- A condition in parentheses. -/
def condition (fuel : Nat) (place : Place) : Parse Expr := do
  expect .leftParen place
  let test ← expression fuel
  holding (looseExpr test) (expect .rightParen .condition)
  return test

/-- An if statement, behind its first word. -/
def branch (fuel : Nat) (statement : Parse Stmt) (span : Span) : Parse Stmt := do
  let test ← condition fuel .ifWord
  holding (looseExpr test) do
    let thenPart ← statement
    if ← accept (.keyword .elseWord) then
      let elsePart ← holding (looseStmt thenPart) statement
      return .branch test thenPart (some elsePart) (← spanFrom span)
    else
      return .branch test thenPart none (← spanFrom span)

/-- A while loop, behind its first word. -/
def whileLoop (fuel : Nat) (statement : Parse Stmt) (span : Span) : Parse Stmt := do
  let test ← condition fuel .whileWord
  let body ← holding (looseExpr test) statement
  return .whileLoop test body (← spanFrom span)

/-- A for loop, behind its first word. -/
def forLoop (fuel : Nat) (statement : Parse Stmt) (span : Span) : Parse Stmt := do
  expect .leftParen .forWord
  let start ← optionalBefore .semicolon (assignment fuel)
  holding (start.toList.flatMap looseAssign) do
    expect .semicolon .loopStart
    let test ← optionalBefore .semicolon (expression fuel)
    holding (test.toList.flatMap looseExpr) do
      expect .semicolon .loopTest
      let update ← optionalBefore .rightParen (assignment fuel)
      holding (update.toList.flatMap looseAssign) do
        expect .rightParen .loopClauses
        let body ← statement
        return .forLoop start test update body (← spanFrom span)

/-- A return, behind its word. -/
def ret (fuel : Nat) (span : Span) : Parse Stmt := do
  let value ← optionalBefore .semicolon (expression fuel)
  holding (value.toList.flatMap looseExpr) (expect .semicolon .ret)
  return .ret value (← spanFrom span)

/-- A call that is a statement. -/
def callStatement (fuel : Nat) : Parse Stmt := do
  let (name, span) ← name .function
  let args ← arguments fuel (expression fuel)
  let span ← spanFrom span
  holding (args.flatMap looseExpr) (expect .semicolon .call)
  return .call name args span

/-- An assignment that is a statement. -/
def assignStatement (fuel : Nat) : Parse Stmt := do
  let a ← assignment fuel
  holding (looseAssign a) (expect .semicolon .assignment)
  return .assign a

/-- Statements up to a closing brace or the end of the program; the fuel bounds their number. -/
def statements (statement : Parse Stmt) : (fuel : Nat) → Parse (List Stmt)
  | 0 => return []
  | fuel + 1 => do
    let k ← kind
    if k = .punct .rightBrace ∨ k = .endOfFile then
      return []
    else
      let s ← statement
      return s :: (← holding (looseStmt s) (statements statement fuel))

/-- A block, behind its opening brace. -/
def block (fuel : Nat) (statement : Parse Stmt) : Parse Stmt := do
  let body ← statements statement fuel
  holding (body.flatMap looseStmt) (expect .rightBrace .block)
  return .block body

/-- One statement over the statements inside it. -/
def statementOver (fuel : Nat) (statement : Parse Stmt) : Parse Stmt := do
  let t ← next
  match t.kind with
  | .keyword .ifWord =>
    advance
    branch fuel statement t.span
  | .keyword .whileWord =>
    advance
    whileLoop fuel statement t.span
  | .keyword .forWord =>
    advance
    forLoop fuel statement t.span
  | .keyword .returnWord =>
    advance
    ret fuel t.span
  | .punct .leftBrace =>
    advance
    block fuel statement
  | .punct .semicolon =>
    advance
    return .empty
  | .identifier =>
    if (← kindBehind) = .punct .leftParen then callStatement fuel else assignStatement fuel
  | _ => fail .statement

/-- A statement. -/
def statement : (fuel : Nat) → Parse Stmt
  | 0 => fail .statement
  | fuel + 1 => statementOver fuel (statement fuel)

end Cmm.Grammar
