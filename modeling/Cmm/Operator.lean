/-!
# Operators

Reference model of `UnaryOp` and `BinaryOp`; the tiers are those of `Parser.parse_or` to
`Parser.parse_multiplicative`.

* `UnOp`, `BinOp` — the operators of expressions with their spelling.
* `BinOp.kind` — arithmetic, comparison or logical; it decides the operand and result types.
* `BinOp.tier` — how tightly an operator binds; `Tier.all` lists the tiers, loosest first.
-/

set_option autoImplicit false

namespace Cmm

/-- The operators with one operand. -/
inductive UnOp where
  | neg
  | not
  deriving DecidableEq, Repr

/-- The operators with two operands. -/
inductive BinOp where
  | add
  | sub
  | mul
  | div
  | eq
  | ne
  | le
  | lt
  | ge
  | gt
  | and
  | or
  deriving DecidableEq, Repr

def UnOp.spelling : UnOp → String
  | .neg => "-"
  | .not => "!"

/-- The name of an operator in a tree listing. -/
def UnOp.label : UnOp → String
  | .neg => "Neg"
  | .not => "Not"

/-- What an operator does with its operands. -/
inductive OperatorKind where
  /-- From numbers to a number. -/
  | arithmetic
  /-- From numbers to a truth value. -/
  | comparison
  /-- From truth values to a truth value. -/
  | logical
  deriving DecidableEq, Repr

/-- The binding strengths of the binary operators. -/
inductive Tier where
  | or
  | and
  | equality
  | comparison
  | additive
  | multiplicative
  deriving DecidableEq, Repr

/-- Every tier, from the loosest to the tightest. -/
def Tier.all : List Tier := [.or, .and, .equality, .comparison, .additive, .multiplicative]

namespace BinOp

def spelling : BinOp → String
  | .add => "+"
  | .sub => "-"
  | .mul => "*"
  | .div => "/"
  | .eq => "=="
  | .ne => "!="
  | .le => "<="
  | .lt => "<"
  | .ge => ">="
  | .gt => ">"
  | .and => "&&"
  | .or => "||"

/-- The name of an operator in a tree listing. -/
def label : BinOp → String
  | .add => "Add"
  | .sub => "Sub"
  | .mul => "Mul"
  | .div => "Div"
  | .eq => "Eq"
  | .ne => "Ne"
  | .le => "Le"
  | .lt => "Lt"
  | .ge => "Ge"
  | .gt => "Gt"
  | .and => "And"
  | .or => "Or"

def kind : BinOp → OperatorKind
  | .add | .sub | .mul | .div => .arithmetic
  | .eq | .ne | .le | .lt | .ge | .gt => .comparison
  | .and | .or => .logical

/-- The tier an operator binds in. -/
def tier : BinOp → Tier
  | .or => .or
  | .and => .and
  | .eq | .ne => .equality
  | .le | .lt | .ge | .gt => .comparison
  | .add | .sub => .additive
  | .mul | .div => .multiplicative

end BinOp

end Cmm
