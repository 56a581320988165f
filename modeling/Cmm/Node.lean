import Cmm.Operator
import Cmm.Symbol

/-!
# Checked trees

Reference model of `Node` and `NodeTag`, with `Node.tag`, `Node.children` and `Node.walk`.

* `Form` — the shapes of a tree node over its children; `Form.children` lists them in source order.
* `Node` — a shape with its type (`void` for statements) and its span. Variables, subscripts and
  calls refer to symbols by handle.
* `Tag` — the shapes by name, one per operator; `Tag.all` is the order of every count.
* `Node.fold` — visits a tree parent first, with a list of the trees that are still to be visited.
-/

set_option autoImplicit false

namespace Cmm

/-- The shapes of a tree node. -/
inductive Form (α : Type) where
  /-- Stands for a tree that has a report. -/
  | error
  | int (value : Int)
  | char (value : UInt8)
  | string (text : String)
  | var (name : Handle)
  | element (array : Handle) (index : α)
  /-- A call; the arguments are a chain of cells. -/
  | call (callee : Handle) (args : Option α)
  | unary (op : UnOp) (operand : α)
  | binary (op : BinOp) (left right : α)
  | assign (target value : α)
  | ret (value : Option α)
  | forLoop (start test update body : Option α)
  | whileLoop (test : α) (body : Option α)
  | branch (test : α) (thenPart elsePart : Option α)
  /-- A list: its first item and the list of the others. -/
  | cell (head : α) (tail : Option α)

/-- The children in source order. -/
def Form.children {α : Type} : Form α → List α
  | .error | .int _ | .char _ | .string _ | .var _ => []
  | .element _ index => [index]
  | .call _ args => args.toList
  | .unary _ operand => [operand]
  | .binary _ left right => [left, right]
  | .assign target value => [target, value]
  | .ret value => value.toList
  | .forLoop start test update body =>
    start.toList ++ test.toList ++ update.toList ++ body.toList
  | .whileLoop test body => test :: body.toList
  | .branch test thenPart elsePart => test :: (thenPart.toList ++ elsePart.toList)
  | .cell head tail => head :: tail.toList

/-- The shapes of nodes by name. -/
inductive Tag where
  | error
  | int
  | char
  | string
  | var
  | element
  | plus
  | unaryMinus
  | binaryMinus
  | mult
  | div
  | equals
  | neq
  | leq
  | lt
  | geq
  | gt
  | and
  | or
  | not
  | call
  | assign
  | ret
  | forLoop
  | whileLoop
  | branch
  | cell
  deriving DecidableEq, Repr

namespace Tag

/-- Every tag, in the order of every count. -/
def all : List Tag :=
  [.error, .int, .char, .string, .var, .element, .plus, .unaryMinus, .binaryMinus, .mult, .div,
    .equals, .neq, .leq, .lt, .geq, .gt, .and, .or, .not, .call, .assign, .ret, .forLoop,
    .whileLoop, .branch, .cell]

/-- The tag as counts and listings show it. -/
def name : Tag → String
  | .error => "Error"
  | .int => "Intcon"
  | .char => "Charcon"
  | .string => "Stringcon"
  | .var => "Var"
  | .element => "ArraySubscript"
  | .plus => "Plus"
  | .unaryMinus => "UnaryMinus"
  | .binaryMinus => "BinaryMinus"
  | .mult => "Mult"
  | .div => "Div"
  | .equals => "Equals"
  | .neq => "Neq"
  | .leq => "Leq"
  | .lt => "Lt"
  | .geq => "Geq"
  | .gt => "Gt"
  | .and => "LogicalAnd"
  | .or => "LogicalOr"
  | .not => "LogicalNot"
  | .call => "FunCall"
  | .assign => "Assg"
  | .ret => "Return"
  | .forLoop => "For"
  | .whileLoop => "While"
  | .branch => "If"
  | .cell => "STnodeList"

end Tag

/-- The tag of a unary operation. -/
def UnOp.tag : UnOp → Tag
  | .neg => .unaryMinus
  | .not => .not

/-- The tag of a binary operation. -/
def BinOp.tag : BinOp → Tag
  | .add => .plus
  | .sub => .binaryMinus
  | .mul => .mult
  | .div => .div
  | .eq => .equals
  | .ne => .neq
  | .le => .leq
  | .lt => .lt
  | .ge => .geq
  | .gt => .gt
  | .and => .and
  | .or => .or

/-- The tag of a shape. -/
def Form.tag {α : Type} : Form α → Tag
  | .error => .error
  | .int _ => .int
  | .char _ => .char
  | .string _ => .string
  | .var _ => .var
  | .element _ _ => .element
  | .call _ _ => .call
  | .unary op _ => op.tag
  | .binary op _ _ => op.tag
  | .assign _ _ => .assign
  | .ret _ => .ret
  | .forLoop _ _ _ _ => .forLoop
  | .whileLoop _ _ => .whileLoop
  | .branch _ _ _ => .branch
  | .cell _ _ => .cell

/-- A tree: a shape with its type and span. -/
structure Node where
  form : Form Node
  ty : Ty
  span : Span

namespace Node

/-- The tree that stands for one with a report. -/
def error (span : Span) : Node := ⟨.error, .error, span⟩

def tag (n : Node) : Tag := n.form.tag

/-- The children in source order. -/
def children (n : Node) : List Node := n.form.children

def isError (n : Node) : Bool := n.tag == .error

def isReturn (n : Node) : Bool := n.tag == .ret

/-- The value of an integer or character constant. -/
def constant? (n : Node) : Option Int :=
  match n.form with
  | .int value => some value
  | .char value => some value.toNat
  | _ => none

/-- The text of a string constant. -/
def text? (n : Node) : Option String :=
  match n.form with
  | .string text => some text
  | _ => none

/-- The symbol a variable, a subscript or a call refers to. -/
def handle? (n : Node) : Option Handle :=
  match n.form with
  | .var h | .element h _ | .call h _ => some h
  | _ => none

/-- The first operand of an operation, the target of an assignment. -/
def left? (n : Node) : Option Node :=
  match n.form with
  | .unary _ operand => some operand
  | .binary _ left _ => some left
  | .assign target _ => some target
  | _ => none

/-- The second operand of an operation, the value of an assignment. -/
def right? (n : Node) : Option Node :=
  match n.form with
  | .binary _ _ right => some right
  | .assign _ value => some value
  | _ => none

/-- The index of a subscript, the arguments of a call. -/
def subtree? (n : Node) : Option Node :=
  match n.form with
  | .element _ index => some index
  | .call _ args => args
  | _ => none

/-- The clause of a statement at a position. -/
def clause? (n : Node) (position : Nat) : Option Node :=
  match n.form, position with
  | .branch test _ _, 0 | .whileLoop test _, 0 => some test
  | .branch _ thenPart _, 1 => thenPart
  | .branch _ _ elsePart, 2 => elsePart
  | .whileLoop _ body, 1 => body
  | .forLoop start _ _ _, 0 => start
  | .forLoop _ test _ _, 1 => test
  | .forLoop _ _ update _, 2 => update
  | .forLoop _ _ _ body, 3 => body
  | .ret value, 0 => value
  | _, _ => none

/-- The first item of a list. -/
def head? (n : Node) : Option Node :=
  match n.form with
  | .cell head _ => some head
  | _ => none

/-- The list of the other items. -/
def tail? (n : Node) : Option Node :=
  match n.form with
  | .cell _ tail => tail
  | _ => none

end Node

/-- The size of several trees together. -/
noncomputable def Node.totalSize : List Node → Nat
  | [] => 0
  | n :: rest => sizeOf n + totalSize rest

namespace Node

theorem totalSize_append (xs ys : List Node) :
    totalSize (xs ++ ys) = totalSize xs + totalSize ys := by
  induction xs with
  | nil => simp only [List.nil_append, totalSize, Nat.zero_add]
  | cons n rest ih => simp only [List.cons_append, totalSize, ih, Nat.add_assoc]

theorem totalSize_toList (x : Option Node) : totalSize x.toList < sizeOf x := by
  cases x with
  | none =>
    simp only [Option.toList, totalSize, Option.none.sizeOf_spec]
    exact Nat.zero_lt_one
  | some n =>
    simp only [Option.toList, totalSize, Option.some.sizeOf_spec]
    omega

end Node

/-- The children of a shape are together smaller than the shape. -/
theorem Form.totalSize_children (f : Form Node) : Node.totalSize f.children < sizeOf f := by
  cases f with
  | error | int | char | string | var =>
    simp only [Form.children, Node.totalSize, Form.error.sizeOf_spec, Form.int.sizeOf_spec,
      Form.char.sizeOf_spec, Form.string.sizeOf_spec, Form.var.sizeOf_spec]
    omega
  | element | unary | binary | assign =>
    simp only [Form.children, Node.totalSize, Form.element.sizeOf_spec, Form.unary.sizeOf_spec,
      Form.binary.sizeOf_spec, Form.assign.sizeOf_spec]
    omega
  | call _ args =>
    have := Node.totalSize_toList args
    simp only [Form.children, Form.call.sizeOf_spec]
    omega
  | ret value =>
    have := Node.totalSize_toList value
    simp only [Form.children, Form.ret.sizeOf_spec]
    omega
  | forLoop start test update body =>
    have := Node.totalSize_toList start
    have := Node.totalSize_toList test
    have := Node.totalSize_toList update
    have := Node.totalSize_toList body
    simp only [Form.children, Node.totalSize_append, Form.forLoop.sizeOf_spec]
    omega
  | whileLoop _ body =>
    have := Node.totalSize_toList body
    simp only [Form.children, Node.totalSize, Form.whileLoop.sizeOf_spec]
    omega
  | branch _ thenPart elsePart =>
    have := Node.totalSize_toList thenPart
    have := Node.totalSize_toList elsePart
    simp only [Form.children, Node.totalSize, Node.totalSize_append, Form.branch.sizeOf_spec]
    omega
  | cell _ tail =>
    have := Node.totalSize_toList tail
    simp only [Form.children, Node.totalSize, Form.cell.sizeOf_spec]
    omega

namespace Node

/-- The children of a tree are together smaller than the tree. -/
theorem totalSize_children (n : Node) : totalSize n.children < sizeOf n := by
  obtain ⟨form, ty, span⟩ := n
  have := form.totalSize_children
  simp only [children, Node.mk.sizeOf_spec]
  omega

/-- Visits the trees of a list, each one before its children and those before the trees behind
it. -/
def foldFrom {β : Type} (visit : β → Node → β) : β → List Node → β
  | b, [] => b
  | b, n :: pending => foldFrom visit (visit b n) (n.children ++ pending)
termination_by _ pending => totalSize pending
decreasing_by
  have := n.totalSize_children
  simp only [totalSize_append, totalSize]
  omega

/-- Visits a tree and all below it, parents first. -/
def fold {β : Type} (visit : β → Node → β) (start : β) (n : Node) : β :=
  foldFrom visit start [n]

end Node

end Cmm
