import Mathlib.Data.List.Forall2
import Cmm.Phrase.Check
import Cmm.Proofs.Table

/-!
# The typing rules of the language

The rules as relations, apart from any order of checks and from any report.

* `Ty.IsNumber`, `Ty.Passes`, `UnOp.Applies`, `BinOp.Applies` — the types that constructs ask for
  and the types that they give.
* `Expr.HasType` — an expression as it is written has a type, given what the names of a table stand
  for.
* `Expr.Mirrors` — a tree has the shape of an expression, constructor by constructor; parentheses
  leave no node.
* `HasType.ne_error` — no typed expression has the type of an error.
-/

set_option autoImplicit false

namespace Cmm

/-- The types that arithmetic is about. -/
def Ty.IsNumber (ty : Ty) : Prop := ty = .int ∨ ty = .char

/-- A value of the second type can be passed for a parameter of the first. -/
inductive Ty.Passes : Ty → Ty → Prop
  | number {formal actual : Ty} (formal_number : formal.IsNumber)
      (actual_number : actual.IsNumber) : Passes formal actual
  | array (element : Scalar) : Passes (.array element) (.array element)

/-- A unary operator takes a type to a type. -/
inductive UnOp.Applies : UnOp → Ty → Ty → Prop
  | neg {operand : Ty} (number : operand.IsNumber) : Applies .neg operand .int
  | not : Applies .not .bool .bool

/-- A binary operator takes two types to a type. -/
inductive BinOp.Applies : BinOp → Ty → Ty → Ty → Prop
  | arithmetic {op : BinOp} {left right : Ty} (operator : op ∈ [.add, .sub, .mul, .div])
      (left_number : left.IsNumber) (right_number : right.IsNumber) : Applies op left right .int
  | comparison {op : BinOp} {left right : Ty} (operator : op ∈ [.eq, .ne, .le, .lt, .ge, .gt])
      (left_number : left.IsNumber) (right_number : right.IsNumber) : Applies op left right .bool
  | logical {op : BinOp} (operator : op ∈ [.and, .or]) : Applies op .bool .bool .bool

mutual

/-- An expression has a type. -/
inductive Expr.HasType (t : Table) : Expr → Ty → Prop
  | int {lexeme : String} {span : Span} {value : Int}
      (fits : Numeral.constant? lexeme = some value) : HasType t (.int lexeme span) .int
  | char (value : UInt8) (span : Span) : HasType t (.char value span) .char
  | string (text : String) (span : Span) : HasType t (.string text span) (.array .char)
  | var {name : String} {span : Span} {h : Handle} {s : Symbol}
      (found : t.Denotes name h s) : HasType t (.var name span) s.ty
  | element {array : String} {index : Expr} {span : Span} {h : Handle} {s : Symbol}
      {element : Scalar} {ty : Ty} (found : t.Denotes array h s) (is_array : s.ty = .array element)
      (typed : HasType t index ty) (number : ty.IsNumber) :
      HasType t (.element array index span) element.ty
  | call {callee : String} {args : List Expr} {span : Span} {h : Handle} {s : Symbol}
      {sig : Signature} {types : List Ty} (found : t.Denotes callee h s)
      (is_function : s.ty = .function) (signature : s.signature? = some sig)
      (typed : HasTypes t args types)
      (passes : List.Forall₂ Ty.Passes (sig.formals.map (·.ty)) types) :
      HasType t (.call callee args span) sig.result.ty
  | unary {op : UnOp} {operand : Expr} {mark : Span} {ty result : Ty}
      (typed : HasType t operand ty) (applies : op.Applies ty result) :
      HasType t (.unary op operand mark) result
  | binary {op : BinOp} {left right : Expr} {leftTy rightTy result : Ty}
      (left_typed : HasType t left leftTy) (right_typed : HasType t right rightTy)
      (applies : op.Applies leftTy rightTy result) : HasType t (.binary op left right) result
  | paren {inner : Expr} {span : Span} {ty : Ty} (typed : HasType t inner ty) :
      HasType t (.paren inner span) ty

/-- Several expressions have types, one by one. -/
inductive Expr.HasTypes (t : Table) : List Expr → List Ty → Prop
  | nil : HasTypes t [] []
  | cons {e : Expr} {rest : List Expr} {ty : Ty} {types : List Ty} (head : HasType t e ty)
      (tail : HasTypes t rest types) : HasTypes t (e :: rest) (ty :: types)

end

mutual

/-- A tree has the shape of an expression. -/
inductive Expr.Mirrors (t : Table) : Expr → Node → Prop
  | int {lexeme : String} {span at_ : Span} {value : Int} {ty : Ty}
      (reads : Numeral.constant? lexeme = some value) :
      Mirrors t (.int lexeme span) ⟨.int value, ty, at_⟩
  | char {value : UInt8} {span at_ : Span} {ty : Ty} :
      Mirrors t (.char value span) ⟨.char value, ty, at_⟩
  | string {text : String} {span at_ : Span} {ty : Ty} :
      Mirrors t (.string text span) ⟨.string text, ty, at_⟩
  | var {name : String} {span at_ : Span} {h : Handle} {s : Symbol} {ty : Ty}
      (found : t.Denotes name h s) : Mirrors t (.var name span) ⟨.var h, ty, at_⟩
  | element {array : String} {index : Expr} {span at_ : Span} {h : Handle} {s : Symbol}
      {i : Node} {ty : Ty} (found : t.Denotes array h s) (same : Mirrors t index i) :
      Mirrors t (.element array index span) ⟨.element h i, ty, at_⟩
  | call {callee : String} {args : List Expr} {span at_ : Span} {h : Handle} {s : Symbol}
      {ns : List Node} {ty : Ty} (found : t.Denotes callee h s) (same : MirrorsAll t args ns) :
      Mirrors t (.call callee args span) ⟨.call h (Node.argumentList ns), ty, at_⟩
  | unary {op : UnOp} {operand : Expr} {mark at_ : Span} {n : Node} {ty : Ty}
      (same : Mirrors t operand n) : Mirrors t (.unary op operand mark) ⟨.unary op n, ty, at_⟩
  | binary {op : BinOp} {left right : Expr} {at_ : Span} {l r : Node} {ty : Ty}
      (left_same : Mirrors t left l) (right_same : Mirrors t right r) :
      Mirrors t (.binary op left right) ⟨.binary op l r, ty, at_⟩
  | paren {inner : Expr} {span at_ : Span} {n : Node} (same : Mirrors t inner n) :
      Mirrors t (.paren inner span) { n with span := at_ }

/-- Trees have the shapes of expressions, one by one. -/
inductive Expr.MirrorsAll (t : Table) : List Expr → List Node → Prop
  | nil : MirrorsAll t [] []
  | cons {e : Expr} {rest : List Expr} {n : Node} {ns : List Node} (head : Mirrors t e n)
      (tail : MirrorsAll t rest ns) : MirrorsAll t (e :: rest) (n :: ns)

end

/-! ## The rules and the checks they name -/

theorem Ty.isArith_iff {ty : Ty} : ty.isArith = true ↔ ty.IsNumber := by
  cases ty <;> simp [isArith, IsNumber]

theorem Ty.isError_iff {ty : Ty} : ty.isError = true ↔ ty = .error := by
  cases ty <;> simp [isError]

theorem Ty.IsNumber.ne_error {ty : Ty} (h : ty.IsNumber) : ty ≠ .error := by
  rcases h with rfl | rfl <;> simp

theorem Scalar.isNumber_ty (element : Scalar) : element.ty.IsNumber := by
  cases element
  · exact .inl rfl
  · exact .inr rfl

theorem TypeSpec.ty_ne_error (spec : TypeSpec) : spec.ty ≠ .error := by
  cases spec <;> simp [TypeSpec.ty]

theorem Ty.suits_iff {formal actual : Ty} :
    Typing.suits formal actual = true ↔ formal.Passes actual := by
  constructor
  · intro h
    cases formal with
    | int => exact .number (.inl rfl) (isArith_iff.1 h)
    | char => exact .number (.inr rfl) (isArith_iff.1 h)
    | array element =>
        have : actual = .array element := by simpa [Typing.suits] using h
        rw [this]
        exact .array element
    | void | bool | function | error => cases h
  · intro h
    cases h with
    | number hf ha => rcases hf with rfl | rfl <;> exact isArith_iff.2 ha
    | array element => simp [Typing.suits]

theorem UnOp.Applies.ne_error {op : UnOp} {ty result : Ty} (h : op.Applies ty result) :
    ty ≠ .error ∧ result ≠ .error := by
  cases h with
  | neg hn => exact ⟨hn.ne_error, by simp⟩
  | not => exact ⟨by simp, by simp⟩

theorem BinOp.Applies.ne_error {op : BinOp} {left right result : Ty}
    (h : op.Applies left right result) : left ≠ .error ∧ right ≠ .error ∧ result ≠ .error := by
  cases h with
  | arithmetic _ hl hr | comparison _ hl hr => exact ⟨hl.ne_error, hr.ne_error, by simp⟩
  | logical _ => exact ⟨by simp, by simp, by simp⟩

/-- An operator has one result for an operand. -/
theorem UnOp.Applies.unique {op : UnOp} {ty result result' : Ty} (h : op.Applies ty result)
    (h' : op.Applies ty result') : result = result' := by
  cases h <;> cases h' <;> rfl

/-- The result that an operator gives is the one its rule says, for the types that it takes. -/
theorem BinOp.takes_iff {op : BinOp} {left right result : Ty} :
    (Typing.takes op left = true ∧ Typing.takes op right = true ∧ result = Typing.gives op) ↔
      op.Applies left right result := by
  constructor
  · rintro ⟨hl, hr, rfl⟩
    cases op with
    | add | sub | mul | div =>
        exact .arithmetic (by simp) (Ty.isArith_iff.1 hl) (Ty.isArith_iff.1 hr)
    | eq | ne | le | lt | ge | gt =>
        exact .comparison (by simp) (Ty.isArith_iff.1 hl) (Ty.isArith_iff.1 hr)
    | and | or =>
        simp only [Typing.takes, kind, beq_iff_eq] at hl hr
        subst hl hr
        exact .logical (by simp)
  · intro h
    cases h with
    | arithmetic ho hl hr | comparison ho hl hr =>
        have hl := Ty.isArith_iff.2 hl
        have hr := Ty.isArith_iff.2 hr
        cases op <;> simp_all [Typing.takes, Typing.gives, kind]
    | logical ho => cases op <;> simp_all [Typing.takes, Typing.gives, kind]

/-- A binary operator has one result for its operands. -/
theorem BinOp.Applies.unique {op : BinOp} {left right result result' : Ty}
    (h : op.Applies left right result) (h' : op.Applies left right result') : result = result' := by
  rw [(takes_iff.2 h).2.2, (takes_iff.2 h').2.2]

/-- In a sound table no typed expression has the type of an error. -/
theorem Expr.HasType.ne_error {t : Table} (ht : t.Sound) :
    ∀ {e : Expr} {ty : Ty}, e.HasType t ty → ty ≠ .error
  | _, _, .int _ | _, _, .char _ _ | _, _, .string _ _ => by simp
  | _, _, .var found => (ht.coherent found.get).ty_ne_error
  | _, _, .element _ _ _ _ => (Scalar.isNumber_ty _).ne_error
  | _, _, .call _ _ _ _ _ => TypeSpec.ty_ne_error _
  | _, _, .unary _ applies => applies.ne_error.2
  | _, _, .binary _ _ applies => applies.ne_error.2.2
  | _, _, .paren typed => typed.ne_error ht

end Cmm
