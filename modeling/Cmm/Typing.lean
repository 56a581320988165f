import Cmm.Node.Items
import Cmm.Table

/-!
# Typing rules

Reference model of the steps of `Semantics` from `variable` to `return_statement`, with
`actuals_match_formals`, `compatible`, `build_unary` and `build_binary`.

One function per construct: it takes the checked parts and makes the checked whole. A part that
stands for an error makes the whole one too and is never reported again.

* names — `Typing.var`, `Typing.element`, `Typing.call`, `Typing.callStatement` look symbols up.
* `Typing.matchArguments` — the arguments of a call against the parameters of the function.
* operators — `Typing.unary`, `Typing.binary`.
* statements — `Typing.assign`, `Typing.branch`, `Typing.whileLoop`, `Typing.forLoop`, `Typing.ret`.
-/

set_option autoImplicit false

namespace Cmm.Typing

/-- An error tree with its report. -/
def fail (fault : SemanticFault) (place span : Span) : Checked Node := do
  .report fault place
  return .error span

/-- An integer constant. -/
def int (value : Int) (span : Span) : Node := ⟨.int value, .int, span⟩

/-- A character constant. -/
def char (value : UInt8) (span : Span) : Node := ⟨.char value, .char, span⟩

/-- A string constant is an array of characters. -/
def string (text : String) (span : Span) : Node := ⟨.string text, .array .char, span⟩

/-- A variable has the type of its symbol. -/
def var (t : Table) (name : String) (span : Span) : Checked Node :=
  match t.lookupAny name with
  | none => fail (.undeclaredVariable name) span span
  | some h => pure ⟨.var h, ((t.get? h).map (·.ty)).getD .error, span⟩

/-- Whether an index has a type that no subscript takes. -/
def badIndex (index : Node) : Bool := !index.ty.isArith && !index.ty.isError

/-- A subscript has the element type of its array. -/
def element (t : Table) (name : String) (index : Node) (span : Span) : Checked Node := do
  let h? := t.lookupAny name
  let scalar? := (h?.bind t.get?).bind (·.ty.element?)
  match h?, scalar? with
  | none, _ => .report (.undeclaredVariable name) span
  | some _, none => .report (.notAnArray name) span
  | some _, some _ => pure ()
  .reportIf (badIndex index) (.subscript name) index.span
  match h?, scalar? with
  | some h, some scalar =>
    return if badIndex index then .error span else ⟨.element h index, scalar.ty, span⟩
  | _, _ => return .error span

/-- Whether a value of one type can be passed for a parameter of another. -/
def suits (formal actual : Ty) : Bool :=
  match formal with
  | .int | .char => actual.isArith
  | .array _ => actual == formal
  | _ => false

/-- Reports the arguments, counted from `position`, that do not suit their parameters. -/
def argumentFaults (name : String) :
    (position : Nat) → List Formal → List Node → List (Report SemanticFault)
  | position, formal :: formals, actual :: actuals =>
    let later := argumentFaults name (position + 1) formals actuals
    if actual.ty.isError || suits formal.ty actual.ty then later
    else ⟨.argument name position formal.ty actual.ty, actual.span⟩ :: later
  | _, _, _ => []

/-- The arguments of a call as a list. -/
def actuals (args : Option Node) : List Node := (args.map Node.items).getD []

/-- Whether the arguments of a call suit the parameters of the function, one by one and in
number. -/
def matchArguments (t : Table) (callee : Handle) (args : Option Node) (span : Span) :
    Checked Bool :=
  match t.get? callee with
  | none => pure false
  | some s =>
    let found := (actuals args).length
    let expected := s.formals.length
    let reports := argumentFaults s.name 1 s.formals (actuals args) ++
      if expected = found then [] else [⟨.argumentCount s.name expected found, span⟩]
    ⟨reports.isEmpty, reports⟩

/-- The call of a symbol. As a statement it needs a function without a result. -/
def callOf (t : Table) (name : String) (h : Handle) (args : Option Node) (span : Span)
    (asStatement : Bool) : Checked Node := do
  let isFunction := ((t.get? h).map (·.isFunction)).getD false
  let result := ((t.get? h).bind (·.result?)).getD .void
  if !isFunction then fail (.notAFunction name) span span
  else if asStatement && result != .void then fail (.unusedResult name) span span
  else
    let ok ← matchArguments t h args span
    return if ok then ⟨.call h args, result.ty, span⟩ else .error span

/-- A call for its value. -/
def call (t : Table) (name : String) (args : Option Node) (span : Span) : Checked Node :=
  match t.lookupAny name with
  | none => fail (.undeclaredCallee name) span span
  | some h => callOf t name h args span false

/-- A call that is a statement. -/
def callStatement (t : Table) (name : String) (args : Option Node) (span : Span) : Checked Node :=
  match t.lookupAny name with
  | none => fail (.undeclaredProcedure name) span span
  | some h => callOf t name h args span true

/-- Negation takes a number, the logical not a truth value. -/
def unary (op : UnOp) (operand : Node) (span : Span) : Checked Node :=
  if operand.ty.isError then pure (.error span)
  else match op with
    | .neg =>
      if operand.ty.isArith then pure ⟨.unary op operand, .int, span⟩
      else fail (.operand (.unary op)) span span
    | .not =>
      if operand.ty = .bool then pure ⟨.unary op operand, .bool, span⟩
      else fail (.operand (.unary op)) span span

/-- Whether a type is one that the operands of an operator have. -/
def takes (op : BinOp) (ty : Ty) : Bool :=
  match op.kind with
  | .arithmetic | .comparison => ty.isArith
  | .logical => ty == .bool

/-- The type of the result of an operator. -/
def gives (op : BinOp) : Ty :=
  match op.kind with
  | .arithmetic => .int
  | .comparison | .logical => .bool

/-- A binary operation spans its operands. -/
def binary (op : BinOp) (left right : Node) : Checked Node :=
  let span := left.span.hull right.span
  if left.ty.isError || right.ty.isError then pure (.error span)
  else if takes op left.ty && takes op right.ty then
    pure ⟨.binary op left right, gives op, span⟩
  else fail (.operand (.binary op)) span span

/-- An assignment has a number on either side. -/
def assign (target value : Node) (span : Span) : Checked Node :=
  if target.isError then pure target
  else if value.isError then pure value
  else if !target.ty.isArith then fail .assignmentTarget target.span span
  else if !value.ty.isArith then fail .assignmentValue value.span span
  else pure ⟨.assign target value, .void, span⟩

/-- A condition is a truth value. -/
def condition (test : Node) : Checked Unit :=
  .reportIf (test.ty != .bool && !test.ty.isError) (.condition test.ty) test.span

/-- An if statement. -/
def branch (test : Node) (thenPart elsePart : Option Node) (span : Span) : Checked Node := do
  condition test
  return ⟨.branch test thenPart elsePart, .void, span⟩

/-- A while loop. -/
def whileLoop (test : Node) (body : Option Node) (span : Span) : Checked Node := do
  condition test
  return ⟨.whileLoop test body, .void, span⟩

/-- A for loop; any of its parts may be missing. -/
def forLoop (start test update body : Option Node) (span : Span) : Checked Node := do
  match test with
  | some test => condition test
  | none => pure ()
  return ⟨.forLoop start test update body, .void, span⟩

/-- A return has a value exactly where the function has a result, and the value is a number. -/
def ret (result : TypeSpec) (value : Option Node) (span : Span) : Checked Node :=
  match value with
  | none =>
    if result = .void then pure ⟨.ret none, .void, span⟩ else fail .missingResult span span
  | some v =>
    if result = .void then fail .unexpectedResult v.span span
    else if v.ty.isArith || v.ty.isError then pure ⟨.ret (some v), v.ty, span⟩
    else fail (.resultType v.ty) v.span span

/-- Puts a statement in front of a list; a missing statement leaves the list as it is. -/
def statementList (head tail : Option Node) : Option Node :=
  match head with
  | some head => some (.cons head tail)
  | none => tail

end Cmm.Typing
