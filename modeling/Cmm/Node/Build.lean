import Cmm.Node

/-!
# Building trees from parts that may be missing

Reference model of `make_constant`, `make_string`, `make_reference`, `make_expr` and
`make_statement`.

Every function makes a node of one shape. Where a shape needs a child that is missing, a tree that
stands for an error takes its place, at the span of the node.
-/

set_option autoImplicit false

namespace Cmm.Node

/-- A child that has to be there. -/
def required (child : Option Node) (span : Span) : Node := child.getD (error span)

/-- A subscript. -/
def ofElement (array : Handle) (index : Option Node) (ty : Ty) (span : Span) : Node :=
  ⟨.element array (required index span), ty, span⟩

/-- A binary operation. -/
def ofBinary (op : BinOp) (left : Node) (right : Option Node) (ty : Ty) (span : Span) : Node :=
  ⟨.binary op left (required right span), ty, span⟩

/-- An assignment. -/
def ofAssign (target : Node) (value : Option Node) (ty : Ty) (span : Span) : Node :=
  ⟨.assign target (required value span), ty, span⟩

/-- A while loop. -/
def ofWhile (test body : Option Node) (ty : Ty) (span : Span) : Node :=
  ⟨.whileLoop (required test span) body, ty, span⟩

/-- An if statement. -/
def ofBranch (test thenPart elsePart : Option Node) (ty : Ty) (span : Span) : Node :=
  ⟨.branch (required test span) thenPart elsePart, ty, span⟩

/-- A character constant of the low eight bits of a number. -/
def ofCharCode (value : Int) (ty : Ty) (span : Span) : Node := ⟨.char (UInt8.ofInt value), ty, span⟩

end Cmm.Node
