import Cmm.Proofs.Tree
import Cmm.Proofs.Typing.Rules

/-!
# The typing rules of trees

What a tree without any error looks like, given the symbols that its handles refer to.

* `Node.IsTyped` — an expression, with the type of every node; `Node.PassedTo` — the arguments of a
  call, cell by cell against the parameters.
* `Node.IsTypedStatement` — a statement in a function with a given result; a block is a chain of
  cells.
* `Node.IsTypedBody` — a whole body: typed statements and a return behind them.
* `IsTyped.no_error`, `IsTypedStatement.no_error`, `IsTypedBody.no_error` — no part of such a tree
  stands for an error or has the type of one.
-/

set_option autoImplicit false

namespace Cmm.Node

mutual

/-- A tree is an expression that obeys the typing rules. -/
inductive IsTyped (t : Table) : Node → Prop
  | int (value : Int) (span : Span) : IsTyped t ⟨.int value, .int, span⟩
  | char (value : UInt8) (span : Span) : IsTyped t ⟨.char value, .char, span⟩
  | string (text : String) (span : Span) : IsTyped t ⟨.string text, .array .char, span⟩
  | var {h : Handle} {s : Symbol} (span : Span) (found : t.get? h = some s) :
      IsTyped t ⟨.var h, s.ty, span⟩
  | element {h : Handle} {s : Symbol} {element : Scalar} {index : Node} (span : Span)
      (found : t.get? h = some s) (is_array : s.ty = .array element) (typed : IsTyped t index)
      (number : index.ty.IsNumber) : IsTyped t ⟨.element h index, element.ty, span⟩
  | call {h : Handle} {s : Symbol} {sig : Signature} {args : Option Node} (span : Span)
      (found : t.get? h = some s) (is_function : s.ty = .function)
      (signature : s.signature? = some sig) (passed : PassedTo t sig.formals args) :
      IsTyped t ⟨.call h args, sig.result.ty, span⟩
  | unary {op : UnOp} {operand : Node} {result : Ty} (span : Span) (typed : IsTyped t operand)
      (applies : op.Applies operand.ty result) : IsTyped t ⟨.unary op operand, result, span⟩
  | binary {op : BinOp} {left right : Node} {result : Ty} (span : Span)
      (left_typed : IsTyped t left) (right_typed : IsTyped t right)
      (applies : op.Applies left.ty right.ty result) :
      IsTyped t ⟨.binary op left right, result, span⟩

/-- A chain of cells holds one typed argument for each parameter. -/
inductive PassedTo (t : Table) : List Formal → Option Node → Prop
  | nil : PassedTo t [] none
  | cons {formal : Formal} {formals : List Formal} {arg : Node} {rest : Option Node} (span : Span)
      (typed : IsTyped t arg) (passes : formal.ty.Passes arg.ty)
      (tail : PassedTo t formals rest) :
      PassedTo t (formal :: formals) (some ⟨.cell arg rest, .void, span⟩)

end

/-- A tree is a statement that obeys the typing rules in a function with the given result. -/
inductive IsTypedStatement (t : Table) (result : TypeSpec) : Node → Prop
  | assign {target value : Node} (span : Span) (target_typed : target.IsTyped t)
      (target_number : target.ty.IsNumber) (value_typed : value.IsTyped t)
      (value_number : value.ty.IsNumber) :
      IsTypedStatement t result ⟨.assign target value, .void, span⟩
  | call {h : Handle} {s : Symbol} {sig : Signature} {args : Option Node} (span : Span)
      (found : t.get? h = some s) (is_function : s.ty = .function)
      (signature : s.signature? = some sig) (no_result : sig.result = .void)
      (passed : PassedTo t sig.formals args) : IsTypedStatement t result ⟨.call h args, .void, span⟩
  | branch {test : Node} {thenPart elsePart : Option Node} (span : Span)
      (test_typed : test.IsTyped t) (truth : test.ty = .bool)
      (then_typed : ∀ n ∈ thenPart, IsTypedStatement t result n)
      (else_typed : ∀ n ∈ elsePart, IsTypedStatement t result n) :
      IsTypedStatement t result ⟨.branch test thenPart elsePart, .void, span⟩
  | whileLoop {test : Node} {body : Option Node} (span : Span) (test_typed : test.IsTyped t)
      (truth : test.ty = .bool) (body_typed : ∀ n ∈ body, IsTypedStatement t result n) :
      IsTypedStatement t result ⟨.whileLoop test body, .void, span⟩
  | forLoop {start test update body : Option Node} (span : Span)
      (start_typed : ∀ n ∈ start, IsTypedStatement t result n)
      (test_typed : ∀ n ∈ test, n.IsTyped t ∧ n.ty = .bool)
      (update_typed : ∀ n ∈ update, IsTypedStatement t result n)
      (body_typed : ∀ n ∈ body, IsTypedStatement t result n) :
      IsTypedStatement t result ⟨.forLoop start test update body, .void, span⟩
  | bareReturn (span : Span) (no_result : result = .void) :
      IsTypedStatement t result ⟨.ret none, .void, span⟩
  | valueReturn {value : Node} (span : Span) (has_result : result ≠ .void)
      (typed : value.IsTyped t) (number : value.ty.IsNumber) :
      IsTypedStatement t result ⟨.ret (some value), value.ty, span⟩
  | block {head : Node} {tail : Option Node} (span : Span)
      (head_typed : IsTypedStatement t result head) (chain : ∀ n ∈ tail, n.tag = .cell)
      (tail_typed : ∀ n ∈ tail, IsTypedStatement t result n) :
      IsTypedStatement t result ⟨.cell head tail, .void, span⟩

/-- A body is a list of typed statements and a return behind them. The return is typed too, or it
has no value and stands behind statements that do not end in one. -/
def IsTypedBody (t : Table) (result : TypeSpec) (body : Node) : Prop :=
  ∃ statements last, body = ofItems statements last ∧ last.isReturn = true ∧
    (∀ s ∈ statements, s.IsTypedStatement t result) ∧
    (last.IsTypedStatement t result ∨
      (∃ span, last = Node.bareReturn span) ∧ ∀ s ∈ statements.getLast?, s.isReturn = false)

/-- A tree neither stands for an error nor has the type of one. -/
def Clean (n : Node) : Prop := n.isError = false ∧ n.ty ≠ .error

variable {t : Table} {result : TypeSpec}

theorem clean_cell (head : Node) (tail : Option Node) (span : Span) :
    Clean ⟨.cell head tail, .void, span⟩ := ⟨rfl, by simp⟩

mutual

theorem IsTyped.no_error (ht : t.Sound) : ∀ {n : Node}, n.IsTyped t → n.Throughout Clean
  | _, .int _ _ | _, .char _ _ | _, .string _ _ => throughout_of_leaf ⟨rfl, by simp⟩ rfl
  | _, .var _ found => throughout_of_leaf ⟨rfl, (ht.coherent found).ty_ne_error⟩ rfl
  | _, .element _ _ _ typed _ => by
    have hindex := typed.no_error ht
    exact throughout_of_child ⟨rfl, (Scalar.isNumber_ty _).ne_error⟩ rfl hindex
  | _, .call _ _ _ _ passed => by
    have hargs := passed.no_error ht
    exact throughout_of_part ⟨rfl, TypeSpec.ty_ne_error _⟩ rfl hargs
  | ⟨.unary op _, _, _⟩, .unary _ typed applies => by
    have hoperand := typed.no_error ht
    exact throughout_of_child ⟨by cases op <;> rfl, applies.ne_error.2⟩ rfl hoperand
  | ⟨.binary op _ _, _, _⟩, .binary _ left_typed right_typed applies => by
    have hleft := left_typed.no_error ht
    have hright := right_typed.no_error ht
    exact throughout_of_children ⟨by cases op <;> rfl, applies.ne_error.2.2⟩ rfl hleft hright

theorem PassedTo.no_error (ht : t.Sound) :
    ∀ {formals : List Formal} {args : Option Node}, PassedTo t formals args →
      ∀ n ∈ args, n.Throughout Clean
  | _, _, .nil => by simp
  | _, _, .cons _ typed _ tail => by
    have harg := typed.no_error ht
    have hrest := tail.no_error ht
    intro n hn
    rw [← Option.some.inj hn]
    refine throughout_iff.2 ⟨clean_cell _ _ _, fun c hc => ?_⟩
    rcases List.mem_cons.1 hc with heq | hc
    · rw [heq]
      exact harg
    · exact hrest c (Option.mem_toList.1 hc)

end

theorem IsTyped.isError_eq_false {n : Node} (h : n.IsTyped t) : n.isError = false := by
  cases h with
  | @unary op => cases op <;> rfl
  | @binary op => cases op <;> rfl
  | _ => rfl

/-- The span of a tree is free of the rules. -/
theorem IsTyped.withSpan {n : Node} (h : n.IsTyped t) (span : Span) :
    IsTyped t { n with span } := by
  cases h with
  | int value _ => exact .int value span
  | char value _ => exact .char value span
  | string text _ => exact .string text span
  | var _ found => exact .var span found
  | element _ found is_array typed number => exact .element span found is_array typed number
  | call _ found is_function signature passed => exact .call span found is_function signature passed
  | unary _ typed applies => exact .unary span typed applies
  | binary _ left_typed right_typed applies => exact .binary span left_typed right_typed applies

theorem IsTypedStatement.no_error (ht : t.Sound) {n : Node} (h : n.IsTypedStatement t result) :
    n.Throughout Clean := by
  induction h with
  | assign span target_typed _ value_typed _ =>
      have htarget := target_typed.no_error ht
      have hvalue := value_typed.no_error ht
      exact throughout_of_children ⟨rfl, by simp⟩ rfl htarget hvalue
  | call span _ _ _ _ passed =>
      have hargs := passed.no_error ht
      exact throughout_of_part ⟨rfl, by simp⟩ rfl hargs
  | branch span test_typed _ _ _ then_ih else_ih =>
      refine throughout_iff.2 ⟨⟨rfl, by simp⟩, fun c hc => ?_⟩
      simp only [children, Form.children, List.mem_cons, List.mem_append, Option.mem_toList] at hc
      rcases hc with rfl | hc | hc
      · exact test_typed.no_error ht
      · exact then_ih c hc
      · exact else_ih c hc
  | whileLoop span test_typed _ _ body_ih =>
      refine throughout_iff.2 ⟨⟨rfl, by simp⟩, fun c hc => ?_⟩
      simp only [children, Form.children, List.mem_cons, Option.mem_toList] at hc
      rcases hc with rfl | hc
      · exact test_typed.no_error ht
      · exact body_ih c hc
  | forLoop span _ test_typed _ _ start_ih update_ih body_ih =>
      refine throughout_iff.2 ⟨⟨rfl, by simp⟩, fun c hc => ?_⟩
      simp only [children, Form.children, List.mem_append, Option.mem_toList] at hc
      rcases hc with ((hc | hc) | hc) | hc
      · exact start_ih c hc
      · exact (test_typed c hc).1.no_error ht
      · exact update_ih c hc
      · exact body_ih c hc
  | bareReturn span _ => exact throughout_of_leaf ⟨rfl, by simp⟩ rfl
  | valueReturn span _ typed number =>
      have hvalue := typed.no_error ht
      exact throughout_of_child ⟨rfl, number.ne_error⟩ rfl hvalue
  | block span _ _ _ head_ih tail_ih =>
      refine throughout_iff.2 ⟨clean_cell _ _ _, fun c hc => ?_⟩
      simp only [children, Form.children, List.mem_cons, Option.mem_toList] at hc
      rcases hc with rfl | hc
      · exact head_ih
      · exact tail_ih c hc

/-- **No part of a typed body stands for an error or has the type of one.** -/
theorem IsTypedBody.no_error (ht : t.Sound) {body : Node} (h : body.IsTypedBody t result) :
    body.Throughout Clean := by
  obtain ⟨statements, last, rfl, -, hstatements, hlast⟩ := h
  refine throughout_ofItems clean_cell (fun s hs => (hstatements s hs).no_error ht) ?_
  rcases hlast with hlast | ⟨⟨span, rfl⟩, -⟩
  · exact hlast.no_error ht
  · exact throughout_of_leaf ⟨rfl, by simp [bareReturn]⟩ rfl

end Cmm.Node
