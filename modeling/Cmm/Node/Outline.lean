import Cmm.Node
import Cmm.Outline
import Cmm.Quoted

/-!
# Outlines of trees

Reference model of the tree listing of `Driver.compile`.

* `Node.outline` — a tree with every type, span and handle, part by part.
-/

set_option autoImplicit false

namespace Cmm

def Scalar.outline : Scalar → Outline
  | .int => .word "Int"
  | .char => .word "Char"

def Ty.outline : Ty → Outline
  | .void => .word "Void"
  | .int => .word "Int"
  | .char => .word "Char"
  | .bool => .word "Bool"
  | .array element => .group "Array" [element.outline]
  | .function => .word "Function"
  | .error => .word "Error"

def Span.outline (s : Span) : Outline :=
  .record "Span" [("offset", .nat s.offset), ("length", .nat s.length)]

def Scope.outline : Scope → Outline
  | .global => .word "Global"
  | .local => .word "Local"

def Handle.outline (h : Handle) : Outline :=
  .record "SymbolRef"
    [("scope", h.scope.outline), ("index", .group "SymbolIdx" [.nat h.index]),
      ("generation", .nat h.generation.toNat)]

mutual

/-- The outline of a tree. -/
def Node.outline : Node → Outline
  | ⟨form, ty, span⟩ =>
    .record "Node" [("kind", form.outline), ("ty", ty.outline), ("span", span.outline)]

/-- The outline of a shape. -/
def Form.outline : Form Node → Outline
  | .error => .word "Error"
  | .int value => .group "IntConst" [.word (toString value)]
  | .char value => .group "CharConst" [.nat value.toNat]
  | .string text => .group "StringConst" [.word (Quoted.text text)]
  | .var h => .group "Var" [h.outline]
  | .element array index =>
    .record "ArraySubscript" [("array", array.outline), ("index", index.outline)]
  | .call callee args =>
    .record "Call" [("callee", callee.outline), ("args", Form.outlineChild args)]
  | .unary op operand =>
    .record "Unary" [("op", .word op.label), ("operand", operand.outline)]
  | .binary op left right =>
    .record "Binary" [("op", .word op.label), ("left", left.outline), ("right", right.outline)]
  | .assign target value => .record "Assign" [("lhs", target.outline), ("rhs", value.outline)]
  | .ret value => .record "Return" [("value", Form.outlineChild value)]
  | .forLoop start test update body =>
    .record "For" [("init", Form.outlineChild start), ("test", Form.outlineChild test),
      ("update", Form.outlineChild update), ("body", Form.outlineChild body)]
  | .whileLoop test body =>
    .record "While" [("test", test.outline), ("body", Form.outlineChild body)]
  | .branch test thenPart elsePart =>
    .record "If" [("test", test.outline), ("then_branch", Form.outlineChild thenPart),
      ("else_branch", Form.outlineChild elsePart)]
  | .cell head tail => .record "List" [("head", head.outline), ("tail", Form.outlineChild tail)]

/-- The outline of a child that may be missing. -/
def Form.outlineChild : Option Node → Outline
  | some n => .group "Some" [n.outline]
  | none => .word "None"

end

end Cmm
