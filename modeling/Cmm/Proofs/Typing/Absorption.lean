import Cmm.Proofs.Typing.Calls

/-!
# A tree that stands for an error is not reported again

* `Report.Fewer` — of every code, one list of reports has no more than another.
* `Typing.Slot` — a place of a construct for a tree, with all else the construct is made of;
  `Slot.Fills` is what the construct comes to with a tree at that place.
* `Typing.fewer_call` — a call, by what is said of each of its arguments.
* `Typing.error_absorbed` — at every place, an error gives rise to no more reports than any other
  tree. As the operand of an operation or an assignment it gives rise to none.
-/

set_option autoImplicit false

namespace Cmm

namespace Report

/-- Of every code, the first reports have no more than the second. -/
def Fewer (rs rs' : List (Report SemanticFault)) : Prop :=
  ∀ code, count code rs ≤ count code rs'

theorem fewer_nil (rs : List (Report SemanticFault)) : Fewer [] rs := by
  intro code
  exact Nat.zero_le _

theorem Fewer.refl (rs : List (Report SemanticFault)) : Fewer rs rs := fun _ => Nat.le_refl _

theorem Fewer.append {xs xs' ys ys' : List (Report SemanticFault)} (hx : Fewer xs xs')
    (hy : Fewer ys ys') : Fewer (xs ++ ys) (xs' ++ ys') := by
  intro code
  rw [count_append, count_append]
  exact Nat.add_le_add (hx code) (hy code)

theorem fewer_of_sublist {rs rs' : List (Report SemanticFault)} (h : rs.Sublist rs') :
    Fewer rs rs' :=
  fun code => (h.map _).count_le code

end Report

open Report (Fewer fewer_nil fewer_of_sublist)

namespace Typing

variable {t : Table} {place : Span}

/-- A place of a construct for a tree, together with the other parts of the construct. The
arguments of a call are those before and those behind the place. -/
inductive Slot where
  | operand (op : UnOp) (span : Span)
  | left (op : BinOp) (right : Node)
  | right (op : BinOp) (left : Node)
  | target (value : Node) (span : Span)
  | value (target : Node) (span : Span)
  | index (array : String) (span : Span)
  | argument (callee : String) (before behind : List Node) (span : Span)
  | statementArgument (callee : String) (before behind : List Node) (span : Span)
  | ifTest (thenPart elsePart : Option Node) (span : Span)
  | whileTest (body : Option Node) (span : Span)
  | forTest (start update body : Option Node) (span : Span)
  | result (span : Span)

namespace Slot

/-- The construct with a tree at the place, in a function with a result type. Any list with the
right elements passes the arguments of a call. -/
inductive Fills (t : Table) (result : TypeSpec) (n : Node) : Slot → Checked Node → Prop
  | operand (op : UnOp) (span : Span) : Fills t result n (.operand op span) (unary op n span)
  | left (op : BinOp) (right : Node) : Fills t result n (.left op right) (binary op n right)
  | right (op : BinOp) (left : Node) : Fills t result n (.right op left) (binary op left n)
  | target (value : Node) (span : Span) :
      Fills t result n (.target value span) (assign n value span)
  | value (target : Node) (span : Span) :
      Fills t result n (.value target span) (assign target n span)
  | index (array : String) (span : Span) :
      Fills t result n (.index array span) (element t array n span)
  | argument {before behind : List Node} {args : Option Node} (callee : String) (span : Span)
      (holds : Node.Holds args (before ++ n :: behind)) :
      Fills t result n (.argument callee before behind span) (call t callee args span)
  | statementArgument {before behind : List Node} {args : Option Node} (callee : String)
      (span : Span) (holds : Node.Holds args (before ++ n :: behind)) :
      Fills t result n (.statementArgument callee before behind span)
        (callStatement t callee args span)
  | ifTest (thenPart elsePart : Option Node) (span : Span) :
      Fills t result n (.ifTest thenPart elsePart span) (branch n thenPart elsePart span)
  | whileTest (body : Option Node) (span : Span) :
      Fills t result n (.whileTest body span) (whileLoop n body span)
  | forTest (start update body : Option Node) (span : Span) :
      Fills t result n (.forTest start update body span) (forLoop start (some n) update body span)
  | result (span : Span) : Fills t result n (.result span) (ret result (some n) span)

/-- The places for the operands of an operation and for the sides of an assignment. -/
def IsOperand : Slot → Prop
  | .operand .. | .left .. | .right .. | .target .. | .value .. => True
  | _ => False

end Slot

/-! ## Calls -/

theorem sublist_argumentFaults (name : String) (position : Nat) (formals : List Formal)
    (before behind : List Node) (place : Span) (other : Node) :
    (argumentFaults name position formals (before ++ .error place :: behind)).Sublist
      (argumentFaults name position formals (before ++ other :: behind)) := by
  induction before generalizing position formals with
  | nil =>
      cases formals with
      | nil => exact .refl _
      | cons formal formals =>
          have herror : argumentFaults name position (formal :: formals)
              (.error place :: behind) = argumentFaults name (position + 1) formals behind := rfl
          rw [List.nil_append, List.nil_append, herror, argumentFaults]
          split
          · exact .refl _
          · exact List.sublist_cons_self _ _
  | cons arg before ih =>
      cases formals with
      | nil => exact .refl _
      | cons formal formals =>
          rw [List.cons_append, List.cons_append, argumentFaults, argumentFaults]
          split
          · exact ih _ _
          · exact (ih _ _).cons_cons _

theorem sublist_matchArguments {args args' : Option Node} {before behind : List Node} {other : Node}
    (absorbed : Node.Holds args (before ++ .error place :: behind))
    (holds : Node.Holds args' (before ++ other :: behind)) (h : Handle) (span : Span) :
    (matchArguments t h args span).reports.Sublist (matchArguments t h args' span).reports := by
  have hargs := (holds_actuals args).unique absorbed
  have hargs' := (holds_actuals args').unique holds
  unfold matchArguments
  cases t.get? h with
  | none => exact .refl _
  | some s =>
      simp only [hargs, hargs', List.length_append, List.length_cons]
      exact (sublist_argumentFaults s.name 1 s.formals before behind place other).append_right _

/-- What is reported of the callee does not depend on the arguments. -/
theorem fewer_callOf {args args' : Option Node} {h : Handle} {span : Span}
    (fewer : Fewer (matchArguments t h args span).reports (matchArguments t h args' span).reports)
    (name : String) (asStatement : Bool) :
    Fewer (callOf t name h args span asStatement).reports
      (callOf t name h args' span asStatement).reports := by
  rw [reports_callOf, reports_callOf]
  cases calleeReports t name h span asStatement with
  | nil => exact fewer
  | cons r rs => exact .refl _

theorem fewer_call {args args' : Option Node} {before behind : List Node} {other : Node}
    (absorbed : Node.Holds args (before ++ .error place :: behind))
    (holds : Node.Holds args' (before ++ other :: behind)) (name : String) (span : Span) :
    Fewer (call t name args span).reports (call t name args' span).reports ∧
      Fewer (callStatement t name args span).reports
        (callStatement t name args' span).reports := by
  unfold call callStatement
  cases t.lookupAny name with
  | none => exact ⟨.refl _, .refl _⟩
  | some h =>
      have fewer := fewer_of_sublist (sublist_matchArguments (t := t) absorbed holds h span)
      exact ⟨fewer_callOf fewer name false, fewer_callOf fewer name true⟩

/-! ## The other constructs -/

/-- What is reported of the array does not depend on the index. -/
theorem reports_element (t : Table) (array : String) (span : Span) :
    ∃ reports, ∀ index, (element t array index span).reports =
      reports ++ (Checked.reportIf (badIndex index) (.subscript array) index.span).reports := by
  unfold element
  cases hlookup : t.lookupAny array with
  | none => exact ⟨[⟨.undeclaredVariable array, span⟩], fun index => by simp [Checked.report]⟩
  | some h =>
      cases helement : (t.get? h).bind (·.ty.element?) with
      | none =>
          refine ⟨[⟨.notAnArray array, span⟩], fun index => ?_⟩
          simp [helement, Checked.report]
      | some scalar =>
          refine ⟨[], fun index => ?_⟩
          simp [helement]

theorem fewer_element (array : String) (other : Node) (span : Span) :
    Fewer (element t array (.error place) span).reports (element t array other span).reports := by
  obtain ⟨reports, hreports⟩ := reports_element t array span
  rw [hreports, hreports]
  exact .append (.refl _) (fewer_nil _)

/-- Where a function has no result, any value is reported, at the place of the value. -/
theorem fewer_ret (result : TypeSpec) (other : Node) (span : Span) :
    Fewer (ret result (some (.error place)) span).reports
      (ret result (some other) span).reports := by
  by_cases hresult : result = .void
  · simp only [ret, if_pos hresult]
    intro code
    exact Nat.le_refl _
  · have hnil : (ret result (some (.error place)) span).reports = [] := by
      simp only [ret, if_neg hresult]
      rfl
    rw [hnil]
    exact fewer_nil _

theorem binary_left_error (op : BinOp) (right : Node) :
    binary op (.error place) right = pure (.error (place.hull right.span)) := rfl

theorem binary_right_error (op : BinOp) (left : Node) :
    binary op left (.error place) = pure (.error (left.span.hull place)) := by
  simp [binary, Node.error, Ty.isError]

theorem assign_value_error (target : Node) (span : Span) :
    (assign target (.error place) span).reports = [] ∧
      (assign target (.error place) span).value.isError = true := by
  unfold assign
  cases htarget : target.isError with
  | true => exact ⟨rfl, htarget⟩
  | false => exact ⟨rfl, rfl⟩

/-- An operation or an assignment with an error on any side is an error without a report. -/
theorem operand_absorbs {result : TypeSpec} {slot : Slot} {absorbed : Checked Node}
    (fills : slot.Fills t result (.error place) absorbed) (operand : slot.IsOperand) :
    absorbed.reports = [] ∧ absorbed.value.isError = true := by
  cases fills with
  | operand op span => exact ⟨rfl, rfl⟩
  | left op right =>
      rw [binary_left_error]
      exact ⟨rfl, rfl⟩
  | right op left =>
      rw [binary_right_error]
      exact ⟨rfl, rfl⟩
  | target value span => exact ⟨rfl, rfl⟩
  | value target span => exact assign_value_error target span
  | _ => exact operand.elim

/-- **An error causes no further reports.** Whatever the table and the result type of the function
are: of every code, a construct with an error at some place has no more reports than the same
construct with any other tree at that place. An operation or an assignment that has an error for an
operand has no report at all and is an error. -/
theorem error_absorbed {result : TypeSpec} {slot : Slot} {other : Node}
    {absorbed checked : Checked Node} (fills_error : slot.Fills t result (.error place) absorbed)
    (fills_other : slot.Fills t result other checked) :
    (∀ code, Report.count code absorbed.reports ≤ Report.count code checked.reports) ∧
      (slot.IsOperand → absorbed.reports = [] ∧ absorbed.value.isError = true) := by
  refine ⟨?_, operand_absorbs fills_error⟩
  show Fewer _ _
  have hoperand : slot.IsOperand → Fewer absorbed.reports checked.reports := by
    intro operand
    rw [(operand_absorbs fills_error operand).1]
    exact fewer_nil _
  cases fills_other with
  | index array span =>
      cases fills_error
      exact fewer_element array other span
  | argument callee span holds =>
      cases fills_error with
      | argument _ _ absorbs => exact (fewer_call absorbs holds callee span).1
  | statementArgument callee span holds =>
      cases fills_error with
      | statementArgument _ _ absorbs => exact (fewer_call absorbs holds callee span).2
  | ifTest thenPart elsePart span =>
      cases fills_error
      exact fewer_nil _
  | whileTest body span =>
      cases fills_error
      exact fewer_nil _
  | forTest start update body span =>
      cases fills_error
      exact fewer_nil _
  | result span =>
      cases fills_error
      exact fewer_ret result other span
  | _ => exact hoperand trivial

/-- `f(x, 1)` against `f(1 == 1, 1)` where `int f(int a);` stands, and `1 == 1 && x` against
`1 == 1 && 1`, with an `x` that was reported before. -/
theorem error_absorbed_sample :
    let t := beforeStatement.table
    let one : Node := ⟨.int 1, .int, ⟨36, 1⟩⟩
    let truth : Node := ⟨.binary .eq one one, .bool, ⟨36, 6⟩⟩
    let x := Node.error ⟨36, 1⟩
    let list (n : Node) := Node.argumentList [n, one]
    ((call t "f" (list x) ⟨34, 10⟩).reports = [⟨.argumentCount "f" 1 2, ⟨34, 10⟩⟩] ∧
      (call t "f" (list truth) ⟨34, 10⟩).reports =
        [⟨.argument "f" 1 .int .bool, ⟨36, 6⟩⟩, ⟨.argumentCount "f" 1 2, ⟨34, 10⟩⟩] ∧
      ∀ code, Report.count code (call t "f" (list x) ⟨34, 10⟩).reports ≤
        Report.count code (call t "f" (list truth) ⟨34, 10⟩).reports) ∧
    (binary .and truth one).reports ≠ [] ∧ (binary .and truth x).reports = [] ∧
      (binary .and truth x).value.isError = true := by
  intro t one truth x list
  refine ⟨⟨by decide +kernel, by decide +kernel, ?_⟩, by decide +kernel, ?_⟩
  · have fills (n : Node) : Slot.Fills t .void n (.argument "f" [] [one] ⟨34, 10⟩)
        (call t "f" (list n) ⟨34, 10⟩) := .argument "f" ⟨34, 10⟩ (.cell (.cell .absent))
    exact (error_absorbed (fills x) (fills truth)).1
  · have fills (n : Node) : Slot.Fills t .void n (.right .and truth) (binary .and truth n) :=
      .right .and truth
    exact (error_absorbed (fills x) (fills one)).2 trivial

end Typing

end Cmm
