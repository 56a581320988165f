import Cmm.Header

/-!
# Programs as they are written

What `Parser` has read when it calls `Semantics`, kept as data.

What the grammar reads, before any rule of the language is checked.

* `Expr`, `Target`, `Assign`, `Stmt` — expressions and statements with their spans.
* `Item` — the parts of declarations in source order. A program is a list of items; the body of a
  function is one of them.
* `Phrase` — a piece of a function body that stands alone because what surrounds it was cut short.
-/

set_option autoImplicit false

namespace Cmm

/-- An expression as it is written. -/
inductive Expr where
  | int (lexeme : String) (span : Span)
  | char (value : UInt8) (span : Span)
  | string (text : String) (span : Span)
  | var (name : String) (span : Span)
  | element (array : String) (index : Expr) (span : Span)
  | call (callee : String) (args : List Expr) (span : Span)
  /-- A unary operation; `mark` is the span of the operator. -/
  | unary (op : UnOp) (operand : Expr) (mark : Span)
  | binary (op : BinOp) (left right : Expr)
  | paren (inner : Expr) (span : Span)

/-- What stands on the left of an assignment. -/
inductive Target where
  | var (name : String) (span : Span)
  | element (array : String) (index : Expr) (span : Span)

/-- An assignment as it is written. -/
structure Assign where
  target : Target
  value : Expr
  span : Span

/-- A statement as it is written. -/
inductive Stmt where
  | empty
  | block (body : List Stmt)
  | assign (assign : Assign)
  | call (callee : String) (args : List Expr) (span : Span)
  | branch (test : Expr) (thenPart : Stmt) (elsePart : Option Stmt) (span : Span)
  | whileLoop (test : Expr) (body : Stmt) (span : Span)
  | forLoop (start : Option Assign) (test : Option Expr) (update : Option Assign) (body : Stmt)
      (span : Span)
  | ret (value : Option Expr) (span : Span)

/-- A piece of a function body that stands alone. -/
inductive Phrase where
  | expr (expr : Expr)
  | target (target : Target)
  | assign (assign : Assign)
  | stmt (stmt : Stmt)

/-- A part of a declaration. -/
inductive Item where
  /-- The declaration that begins is external. -/
  | external
  /-- The type word of the declaration. -/
  | spec (spec : TypeSpec)
  | scalar (name : String) (span : Span)
  /-- An array, with its size as it is written. -/
  | array (name : String) (size : String) (sizeSpan : Span) (span : Span)
  /-- A function header up to the end of its parameters. -/
  | header (name : String) (span : Span) (params : List Param)
  /-- The header is a prototype. -/
  | prototype
  /-- The list of prototypes is over. -/
  | endPrototypes
  /-- The header begins a definition. -/
  | beginBody
  /-- The statements of a function, with the span of the closing brace. -/
  | body (body : List Stmt) (closing : Span)
  /-- A piece of a body that was cut short. -/
  | loose (phrase : Phrase)

end Cmm
