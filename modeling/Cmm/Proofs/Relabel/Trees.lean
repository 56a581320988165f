import Cmm.Proofs.Relabel.Tables
import Cmm.Proofs.Tree

/-!
# Checking under other names and places

* `Relabel.node` — a change of names and places, carried through a tree. Trees have places but no
  names: they refer to symbols by handle, and handles stay.
* `Checked.Follows` — what is checked after the change is the changed tree, with the changed
  reports. One lemma per typing rule.
* `Stmt.follows_checkBody` — the statements of a body are checked alike in tables that mirror each
  other. So no rule looks at a place, and none at a name but to find its symbol.
-/

set_option autoImplicit false

namespace Cmm

namespace Relabel

variable (r : Relabel)

mutual

def node (r : Relabel) : Node → Node
  | ⟨form, ty, span⟩ => ⟨r.form form, ty, r.place span⟩

def form (r : Relabel) : Form Node → Form Node
  | .error => .error
  | .int value => .int value
  | .char value => .char value
  | .string text => .string text
  | .var h => .var h
  | .element h index => .element h (r.node index)
  | .call h args => .call h (r.node? args)
  | .unary op operand => .unary op (r.node operand)
  | .binary op left right => .binary op (r.node left) (r.node right)
  | .assign target value => .assign (r.node target) (r.node value)
  | .ret value => .ret (r.node? value)
  | .forLoop start test update body =>
    .forLoop (r.node? start) (r.node? test) (r.node? update) (r.node? body)
  | .whileLoop test body => .whileLoop (r.node test) (r.node? body)
  | .branch test thenPart elsePart => .branch (r.node test) (r.node? thenPart) (r.node? elsePart)
  | .cell head tail => .cell (r.node head) (r.node? tail)

def node? (r : Relabel) : Option Node → Option Node
  | none => none
  | some n => some (r.node n)

end

@[simp] theorem node?_eq_map (n? : Option Node) : r.node? n? = n?.map r.node := by
  cases n? <;> rfl

@[simp] theorem ty_node (n : Node) : (r.node n).ty = n.ty := by
  obtain ⟨form, ty, span⟩ := n
  rfl

@[simp] theorem span_node (n : Node) : (r.node n).span = r.place n.span := by
  obtain ⟨form, ty, span⟩ := n
  rfl

theorem tag_node (n : Node) : (r.node n).tag = n.tag := by
  obtain ⟨form, ty, span⟩ := n
  cases form <;> rfl

@[simp] theorem isError_node (n : Node) : (r.node n).isError = n.isError := by
  simp only [Node.isError, r.tag_node]

@[simp] theorem isReturn_node (n : Node) : (r.node n).isReturn = n.isReturn := by
  simp only [Node.isReturn, r.tag_node]

theorem node_withSpan (n : Node) (span : Span) :
    r.node { n with span } = { r.node n with span := r.place span } := by
  obtain ⟨form, ty, span⟩ := n
  rfl

/-! Chains of cells -/

theorem node_cons (head : Node) (tail : Option Node) :
    r.node (.cons head tail) = .cons (r.node head) (tail.map r.node) := by
  cases tail with
  | none => simp [Node.cons, node, form]
  | some tail => simp [Node.cons, node, form, r.hull]

theorem items_node (n : Node) : (r.node n).items = n.items.map r.node := by
  fun_induction Node.items n with
  | case1 head ty span => rfl
  | case2 head tail ty span ih =>
      show r.node head :: (r.node tail).items = r.node head :: tail.items.map r.node
      rw [ih]
  | case3 n hnone hsome =>
      obtain ⟨form, ty, span⟩ := n
      cases form with
      | cell head tail =>
          cases tail with
          | none => exact absurd rfl (hnone _ _ _)
          | some tail => exact absurd rfl (hsome _ _ _ _)
      | error | int | char | string | var | element | call | unary | binary | assign | ret
      | forLoop | whileLoop | branch => rfl

theorem argumentList_map (args : List Node) :
    Node.argumentList (args.map r.node) = (Node.argumentList args).map r.node := by
  induction args with
  | nil => rfl
  | cons arg rest ih =>
      have hcons := r.node_cons arg (Node.argumentList rest)
      rw [← ih] at hcons
      exact congrArg some hcons.symm

theorem node_ofItems (before : List Node) (last : Node) :
    r.node (.ofItems before last) = .ofItems (before.map r.node) (r.node last) := by
  induction before with
  | nil => exact r.node_cons last none
  | cons head rest ih =>
      show r.node (.cons head (some (.ofItems rest last))) = _
      rw [r.node_cons, Option.map_some, ih]
      rfl

/-- A body gets its return at the changed place, or has it there already. -/
theorem node_appendReturn (body : Option Node) (span : Span) :
    r.node (.appendReturn body span) = .appendReturn (body.map r.node) (r.place span) := by
  have hsplit : ((body.map r.node).map Node.split).getD [] =
      ((body.map Node.split).getD []).map r.node := by
    cases body with
    | none => rfl
    | some n => simp [Node.split_eq_items, r.items_node]
  have hbare : r.node (.bareReturn span) = .bareReturn (r.place span) := rfl
  unfold Node.appendReturn
  simp only [hsplit]
  generalize (body.map Node.split).getD [] = items
  rw [List.getLast?_map]
  cases items.getLast? with
  | none => exact r.node_ofItems [] _
  | some last =>
      simp only [Option.map_some, r.isReturn_node]
      split
      · rw [r.node_ofItems, List.map_dropLast]
      · rw [r.node_ofItems, hbare]

end Relabel

/-! ## Typing rules -/

namespace Checked

variable {α α' β β' : Type} {r : Relabel} {F : α → α'} {S : β → β' → Prop} {x : Checked α}
  {y : Checked α'}

/-- A checked value is the changed one, with the changed reports. -/
abbrev Follows (r : Relabel) (F : α → α') (x : Checked α) (y : Checked α') : Prop :=
  Agrees r (fun a b => b = F a) x y

namespace Follows

theorem pure {a : α} {b : α'} (h : b = F a) : Follows r F (Pure.pure a) (Pure.pure b) :=
  Agrees.pure h

theorem bind (h : Follows r F x y) {f : α → Checked β} {g : α' → Checked β'}
    (hf : ∀ a, Agrees r S (f a) (g (F a))) : Agrees r S (x >>= f) (y >>= g) := by
  refine Agrees.bind h ?_
  rintro a b rfl
  exact hf a

/-- What is checked is there. -/
theorem some (h : Follows r F x y) :
    Follows r (Option.map F) (Option.some <$> x) (Option.some <$> y) :=
  h.map fun _ _ hab => congrArg Option.some hab

theorem discard (h : Follows r F x y) :
    Follows r id (Functor.discard x) (Functor.discard y) :=
  h.map fun _ _ _ => rfl

theorem option {check : α → Checked β} {check' : α' → Checked β'} {G : β → β'}
    (h : ∀ a, Follows r G (check a) (check' (F a))) (a? : Option α) :
    Follows r (Option.map G) (Checked.option check a?) (Checked.option check' (a?.map F)) := by
  cases a? with
  | none => exact pure rfl
  | some a => exact (h a).some

end Follows

end Checked

namespace Typing

open Checked

variable {r : Relabel} {t t' : Table}

theorem follows_fail {fault fault' : SemanticFault} {place span : Span}
    (hfault : fault' = r.fault fault) :
    Follows r r.node (fail fault place span) (fail fault' (r.place place) (r.place span)) :=
  .report hfault rfl (.pure rfl)

theorem follows_var (m : t.Mirrors r t') (name : String) (span : Span) :
    Follows r r.node (var t name span) (var t' (r.name name) (r.place span)) := by
  unfold var
  rw [m.lookupAny]
  cases t.lookupAny name with
  | none => exact follows_fail rfl
  | some h =>
      have hty : ((t'.get? h).map (·.ty)).getD .error = ((t.get? h).map (·.ty)).getD .error := by
        rw [m.get?]
        cases t.get? h <;> rfl
      refine .pure ?_
      rw [hty]
      rfl

theorem follows_element (m : t.Mirrors r t') (name : String) (index : Node) (span : Span) :
    Follows r r.node (element t name index span)
      (element t' (r.name name) (r.node index) (r.place span)) := by
  have hbad : badIndex (r.node index) = badIndex index := by simp [badIndex]
  have hscalar (h : Handle) : (t'.get? h).bind (·.ty.element?) =
      (t.get? h).bind (·.ty.element?) := by
    rw [m.get?]
    cases t.get? h <;> rfl
  unfold element
  rw [m.lookupAny]
  cases t.lookupAny name with
  | none => exact .report rfl rfl (.reportIf hbad rfl (r.span_node index) (.pure rfl))
  | some h =>
      simp only [Option.bind_some, hscalar, hbad]
      cases (t.get? h).bind (·.ty.element?) with
      | none => exact .report rfl rfl (.reportIf rfl rfl (r.span_node index) (.pure rfl))
      | some scalar =>
          refine .reportIf rfl rfl (r.span_node index) (.pure ?_)
          split <;> rfl

theorem argumentFaults_relabel (name : String) (position : Nat) (formals : List Formal)
    (args : List Node) :
    argumentFaults (r.name name) position (formals.map r.formal) (args.map r.node) =
      (argumentFaults name position formals args).map r.report := by
  induction formals generalizing position args with
  | nil => rfl
  | cons formal formals ih =>
      cases args with
      | nil => rfl
      | cons arg args =>
          have hlater := ih (position + 1) args
          have hty : (r.formal formal).ty = formal.ty := rfl
          simp only [List.map_cons, argumentFaults, r.ty_node, r.span_node, hty, hlater]
          split
          · rfl
          · rfl

theorem actuals_map (args : Option Node) :
    actuals (args.map r.node) = (actuals args).map r.node := by
  cases args with
  | none => rfl
  | some n => exact r.items_node n

theorem follows_matchArguments (m : t.Mirrors r t') (callee : Handle) (args : Option Node)
    (span : Span) :
    Follows r id (matchArguments t callee args span)
      (matchArguments t' callee (args.map r.node) (r.place span)) := by
  unfold matchArguments
  rw [m.get?]
  cases t.get? callee with
  | none => exact .pure rfl
  | some s =>
      have hname : (r.symbol s).name = r.name s.name := rfl
      have hfound : ((actuals args).map r.node).length = (actuals args).length := List.length_map _
      have hexpected : (s.formals.map r.formal).length = s.formals.length := List.length_map _
      have hcount : (if s.formals.length = (actuals args).length then []
          else [⟨.argumentCount (r.name s.name) s.formals.length (actuals args).length,
            r.place span⟩]) =
          List.map r.report (if s.formals.length = (actuals args).length then []
          else [⟨.argumentCount s.name s.formals.length (actuals args).length, span⟩]) := by
        split <;> rfl
      simp only [Option.map_some, hname, r.formals_symbol, actuals_map, hfound, hexpected,
        argumentFaults_relabel, hcount, ← List.map_append]
      refine ⟨?_, rfl⟩
      exact List.isEmpty_map

theorem follows_callOf (m : t.Mirrors r t') (name : String) (h : Handle) (args : Option Node)
    (span : Span) (asStatement : Bool) :
    Follows r r.node (callOf t name h args span asStatement)
      (callOf t' (r.name name) h (args.map r.node) (r.place span) asStatement) := by
  have hfunction : (t'.get? h).map (·.isFunction) = (t.get? h).map (·.isFunction) := by
    rw [m.get?]
    cases t.get? h <;> rfl
  have hresult : (t'.get? h).bind (·.result?) = (t.get? h).bind (·.result?) := by
    rw [m.get?]
    cases t.get? h with
    | none => rfl
    | some s => exact r.result?_symbol s
  unfold callOf
  simp only [hfunction, hresult]
  split
  · exact follows_fail rfl
  · split
    · exact follows_fail rfl
    · refine (follows_matchArguments m h args span).bind fun ok => .pure ?_
      cases ok with
      | false => rfl
      | true => simp [Relabel.node, Relabel.form]

theorem follows_call (m : t.Mirrors r t') (name : String) (args : Option Node) (span : Span) :
    Follows r r.node (call t name args span)
      (call t' (r.name name) (args.map r.node) (r.place span)) := by
  unfold call
  rw [m.lookupAny]
  cases t.lookupAny name with
  | none => exact follows_fail rfl
  | some h => exact follows_callOf m name h args span false

theorem follows_callStatement (m : t.Mirrors r t') (name : String) (args : Option Node)
    (span : Span) :
    Follows r r.node (callStatement t name args span)
      (callStatement t' (r.name name) (args.map r.node) (r.place span)) := by
  unfold callStatement
  rw [m.lookupAny]
  cases t.lookupAny name with
  | none => exact follows_fail rfl
  | some h => exact follows_callOf m name h args span true

theorem follows_unary (op : UnOp) (operand : Node) (span : Span) :
    Follows r r.node (unary op operand span) (unary op (r.node operand) (r.place span)) := by
  unfold unary
  rw [r.ty_node]
  split
  · exact .pure rfl
  · cases op <;> dsimp only <;> split
    · exact .pure rfl
    · exact follows_fail rfl
    · exact .pure rfl
    · exact follows_fail rfl

theorem follows_binary (op : BinOp) (left right : Node) :
    Follows r r.node (binary op left right) (binary op (r.node left) (r.node right)) := by
  unfold binary
  simp only [r.ty_node, r.span_node, ← r.hull]
  split
  · exact .pure rfl
  · split
    · exact .pure rfl
    · exact follows_fail rfl

theorem follows_assign (target value : Node) (span : Span) :
    Follows r r.node (assign target value span)
      (assign (r.node target) (r.node value) (r.place span)) := by
  unfold assign
  simp only [r.isError_node, r.ty_node, r.span_node]
  split
  · exact .pure rfl
  · split
    · exact .pure rfl
    · split
      · exact follows_fail rfl
      · split
        · exact follows_fail rfl
        · exact .pure rfl

section

variable {β β' : Type} {S : β → β' → Prop} {f : Unit → Checked β} {g : Unit → Checked β'}

theorem follows_condition (test : Node) (hf : Agrees r S (f ()) (g ())) :
    Agrees r S (condition test >>= f) (condition (r.node test) >>= g) := by
  unfold condition
  rw [r.ty_node, r.span_node]
  exact .reportIf rfl rfl rfl hf

end

theorem follows_branch (test : Node) (thenPart elsePart : Option Node) (span : Span) :
    Follows r r.node (branch test thenPart elsePart span)
      (branch (r.node test) (thenPart.map r.node) (elsePart.map r.node) (r.place span)) :=
  follows_condition test (.pure (by simp [Relabel.node, Relabel.form]))

theorem follows_whileLoop (test : Node) (body : Option Node) (span : Span) :
    Follows r r.node (whileLoop test body span)
      (whileLoop (r.node test) (body.map r.node) (r.place span)) :=
  follows_condition test (.pure (by simp [Relabel.node, Relabel.form]))

theorem follows_forLoop (start test update body : Option Node) (span : Span) :
    Follows r r.node (forLoop start test update body span)
      (forLoop (start.map r.node) (test.map r.node) (update.map r.node) (body.map r.node)
        (r.place span)) := by
  cases test with
  | none => exact .pure (by simp [Relabel.node, Relabel.form])
  | some test => exact follows_condition test (.pure (by simp [Relabel.node, Relabel.form]))

theorem follows_ret (result : TypeSpec) (value : Option Node) (span : Span) :
    Follows r r.node (ret result value span) (ret result (value.map r.node) (r.place span)) := by
  unfold ret
  cases value with
  | none =>
      dsimp only [Option.map_none]
      split
      · exact .pure rfl
      · exact follows_fail rfl
  | some v =>
      simp only [Option.map_some, r.ty_node, r.span_node]
      split
      · exact follows_fail rfl
      · split
        · exact .pure rfl
        · exact follows_fail rfl

theorem statementList_map (head tail : Option Node) :
    statementList (head.map r.node) (tail.map r.node) = (statementList head tail).map r.node := by
  cases head with
  | none => rfl
  | some head => exact congrArg some (r.node_cons head tail).symm

end Typing

/-! ## Phrases -/

open Checked

variable {r : Relabel} {t t' : Table}

mutual

theorem Expr.follows_check (m : t.Mirrors r t') :
    ∀ e : Expr, Follows r r.node (e.check t) ((r.expr e).check t')
  | .int lexeme span => by
    rw [Relabel.expr, Expr.check, Expr.check]
    cases Numeral.constant? lexeme with
    | none => exact Typing.follows_fail rfl
    | some value => exact .pure rfl
  | .char value span => .pure rfl
  | .string text span => .pure rfl
  | .var name span => Typing.follows_var m name span
  | .element array index span => by
    rw [Relabel.expr, Expr.check, Expr.check]
    exact (index.follows_check m).bind fun i => Typing.follows_element m array i span
  | .call callee args span => by
    rw [Relabel.expr, Expr.check, Expr.check]
    refine (Expr.follows_checkAll m args).bind fun ns => ?_
    rw [r.argumentList_map]
    exact Typing.follows_call m callee _ span
  | .unary op operand mark => by
    rw [Relabel.expr, Expr.check, Expr.check]
    refine (operand.follows_check m).bind fun n => ?_
    rw [r.span_node, ← r.hull]
    exact Typing.follows_unary op n _
  | .binary op left right => by
    rw [Relabel.expr, Expr.check, Expr.check]
    exact (left.follows_check m).bind fun l => (right.follows_check m).bind fun n =>
      Typing.follows_binary op l n
  | .paren inner span => by
    rw [Relabel.expr, Expr.check, Expr.check]
    exact (inner.follows_check m).bind fun n => .pure (r.node_withSpan n span).symm

theorem Expr.follows_checkAll (m : t.Mirrors r t') :
    ∀ es : List Expr, Follows r (List.map r.node) (Expr.checkAll t es)
      (Expr.checkAll t' (r.exprs es))
  | [] => .pure rfl
  | e :: rest => by
    rw [Relabel.exprs, Expr.checkAll, Expr.checkAll]
    exact (e.follows_check m).bind fun n => (Expr.follows_checkAll m rest).bind fun ns => .pure rfl

end

theorem Target.follows_check (m : t.Mirrors r t') (place : Target) :
    Follows r r.node (place.check t) ((r.target place).check t') := by
  cases place with
  | var name span => exact Typing.follows_var m name span
  | element array index span =>
      exact (index.follows_check m).bind fun i => Typing.follows_element m array i span

theorem Assign.follows_check (m : t.Mirrors r t') (a : Assign) :
    Follows r r.node (a.check t) ((r.assign a).check t') :=
  (a.target.follows_check m).bind fun target => (a.value.follows_check m).bind fun value =>
    Typing.follows_assign target value a.span

mutual

theorem Stmt.follows_check (m : t.Mirrors r t') (result : TypeSpec) :
    ∀ s : Stmt, Follows r (Option.map r.node) (s.check t result) ((r.stmt s).check t' result)
  | .empty => .pure rfl
  | .block body => Stmt.follows_checkBody m result body
  | .assign a => (a.follows_check m).some
  | .call callee args span => by
    rw [Relabel.stmt, Stmt.check, Stmt.check, ← r.exprs_eq_map]
    refine (Expr.follows_checkAll m args).bind fun ns => ?_
    rw [r.argumentList_map]
    exact (Typing.follows_callStatement m callee _ span).some
  | .branch test thenPart elsePart span => by
    rw [Relabel.stmt, Stmt.check, Stmt.check]
    exact (test.follows_check m).bind fun c => (thenPart.follows_check m result).bind fun yes =>
      (Stmt.follows_checkElse m result elsePart).bind fun no =>
        (Typing.follows_branch c yes no span).some
  | .whileLoop test body span => by
    rw [Relabel.stmt, Stmt.check, Stmt.check]
    exact (test.follows_check m).bind fun c => (body.follows_check m result).bind fun b =>
      (Typing.follows_whileLoop c b span).some
  | .forLoop start test update body span => by
    rw [Relabel.stmt, Stmt.check, Stmt.check]
    have hassign (a : Assign) := a.follows_check m
    have htest (e : Expr) := e.follows_check m
    exact (Follows.option hassign start).bind fun s => (Follows.option htest test).bind fun c =>
      (Follows.option hassign update).bind fun u => (body.follows_check m result).bind fun b =>
        (Typing.follows_forLoop s c u b span).some
  | .ret value span => by
    rw [Relabel.stmt, Stmt.check, Stmt.check]
    have hvalue (e : Expr) := e.follows_check m
    exact (Follows.option hvalue value).bind fun v => (Typing.follows_ret result v span).some

theorem Stmt.follows_checkElse (m : t.Mirrors r t') (result : TypeSpec) :
    ∀ s? : Option Stmt, Follows r (Option.map r.node) (Stmt.checkElse t result s?)
      (Stmt.checkElse t' result (r.stmt? s?))
  | none => .pure rfl
  | some s => s.follows_check m result

/-- The statements of a body are checked alike in tables that mirror each other. -/
theorem Stmt.follows_checkBody (m : t.Mirrors r t') (result : TypeSpec) :
    ∀ body : List Stmt, Follows r (Option.map r.node) (Stmt.checkBody t result body)
      (Stmt.checkBody t' result (r.stmts body))
  | [] => .pure rfl
  | s :: rest => by
    rw [Relabel.stmts, Stmt.checkBody, Stmt.checkBody]
    exact (s.follows_check m result).bind fun head =>
      (Stmt.follows_checkBody m result rest).bind fun tail =>
        .pure (Typing.statementList_map head tail)

end

theorem Phrase.follows_check (m : t.Mirrors r t') (result : TypeSpec) (p : Phrase) :
    Follows r id (p.check t result) ((r.phrase p).check t' result) := by
  cases p with
  | expr e => exact (e.follows_check m).discard
  | target place => exact (place.follows_check m).discard
  | assign a => exact (a.follows_check m).discard
  | stmt s => exact (s.follows_check m result).discard

end Cmm
