import Cmm.Phrase
import Cmm.Numeral
import Cmm.Typing

/-!
# Checking expressions and statements

Reference model of the order in which `Parser.expression` and `Parser.statement` call the steps of
`Semantics`.

Every phrase is checked from its parts up, left to right, against the symbols that are declared.

* `Expr.check` — the checked tree of an expression.
* `Stmt.check` — that of a statement; an empty statement and an empty block have none.
* `Stmt.checkBody` — the chain of the statements of a block.
* `Phrase.check` — only what there is to report.
-/

set_option autoImplicit false

namespace Cmm

/-- The arguments of a call as a chain of cells; no arguments are no chain. -/
def Node.argumentList (args : List Node) : Option Node :=
  args.foldr (fun head tail => some (.cons head tail)) none

mutual

/-- The checked tree of an expression. -/
def Expr.check (t : Table) : Expr → Checked Node
  | .int lexeme span =>
    match Numeral.constant? lexeme with
    | some value => pure (Typing.int value span)
    | none => Typing.fail (.oversizedConstant lexeme) span span
  | .char value span => pure (Typing.char value span)
  | .string text span => pure (Typing.string text span)
  | .var name span => Typing.var t name span
  | .element array index span => do
    let index ← index.check t
    Typing.element t array index span
  | .call callee args span => do
    let args ← Expr.checkAll t args
    Typing.call t callee (Node.argumentList args) span
  | .unary op operand mark => do
    let operand ← operand.check t
    Typing.unary op operand (mark.hull operand.span)
  | .binary op left right => do
    let left ← left.check t
    let right ← right.check t
    Typing.binary op left right
  | .paren inner span => do
    let inner ← inner.check t
    return { inner with span }

/-- The checked trees of several expressions. -/
def Expr.checkAll (t : Table) : List Expr → Checked (List Node)
  | [] => pure []
  | e :: rest => do
    let n ← e.check t
    let ns ← Expr.checkAll t rest
    return n :: ns

end

/-- The checked tree of a target. -/
def Target.check (t : Table) : Target → Checked Node
  | .var name span => Typing.var t name span
  | .element array index span => do
    let index ← index.check t
    Typing.element t array index span

/-- The checked tree of an assignment. -/
def Assign.check (t : Table) (a : Assign) : Checked Node := do
  let target ← a.target.check t
  let value ← a.value.check t
  Typing.assign target value a.span

/-- The checked tree of a part that may be missing. -/
def Checked.option {α β : Type} (check : α → Checked β) : Option α → Checked (Option β)
  | none => pure none
  | some a => some <$> check a

mutual

/-- The checked tree of a statement in a function with the given result. -/
def Stmt.check (t : Table) (result : TypeSpec) : Stmt → Checked (Option Node)
  | .empty => pure none
  | .block body => Stmt.checkBody t result body
  | .assign a => some <$> a.check t
  | .call callee args span => do
    let args ← Expr.checkAll t args
    some <$> Typing.callStatement t callee (Node.argumentList args) span
  | .branch test thenPart elsePart span => do
    let test ← test.check t
    let thenPart ← thenPart.check t result
    let elsePart ← Stmt.checkElse t result elsePart
    some <$> Typing.branch test thenPart elsePart span
  | .whileLoop test body span => do
    let test ← test.check t
    let body ← body.check t result
    some <$> Typing.whileLoop test body span
  | .forLoop start test update body span => do
    let start ← Checked.option (Assign.check t) start
    let test ← Checked.option (Expr.check t) test
    let update ← Checked.option (Assign.check t) update
    let body ← body.check t result
    some <$> Typing.forLoop start test update body span
  | .ret value span => do
    let value ← Checked.option (Expr.check t) value
    some <$> Typing.ret result value span

/-- The checked tree of an else part; a missing one has none. -/
def Stmt.checkElse (t : Table) (result : TypeSpec) : Option Stmt → Checked (Option Node)
  | none => pure none
  | some s => s.check t result

/-- The chain of the checked trees of several statements. -/
def Stmt.checkBody (t : Table) (result : TypeSpec) : List Stmt → Checked (Option Node)
  | [] => pure none
  | s :: rest => do
    let head ← s.check t result
    let tail ← Stmt.checkBody t result rest
    return Typing.statementList head tail

end

/-- What there is to report on a phrase. -/
def Phrase.check (t : Table) (result : TypeSpec) : Phrase → Checked Unit
  | .expr e => Functor.discard (e.check t)
  | .target place => Functor.discard (place.check t)
  | .assign a => Functor.discard (a.check t)
  | .stmt s => Functor.discard (s.check t result)

end Cmm
