import Cmm.Proofs.Handover.Items

/-!
# What an interruption leaves

* `Parse.Spares` — where a parser is interrupted, no finished body is among what was complete. One
  lemma per combinator, and one per production.
* `Grammar.spares_declaration` — a declaration that is cut short hands no function over.
-/

set_option autoImplicit false

namespace Cmm

namespace Parse

variable {α β : Type} {p : Parse α} {f : α → Parse β} {items : List Item}

/-- Where a parser is interrupted, no body is among what was complete. -/
def Spares (p : Parse α) : Prop := ∀ c i, p c = .error i → Bodiless i.complete

namespace Spares

theorem pure (a : α) : Spares (Pure.pure a : Parse α) := by
  intro c i h
  cases h

/-- What is read first may be known. -/
theorem bindWith {P : α → Prop} (hp : Spares p) (hP : Yields p P) (hf : ∀ a, P a → Spares (f a)) :
    Spares (p >>= f) := by
  intro c i h
  rw [bind_apply] at h
  cases hr : p c with
  | error j =>
      rw [hr] at h
      cases h
      exact hp c _ hr
  | ok r =>
      rw [hr] at h
      exact hf r.1 (hP c r.1 r.2 hr) r.2 i h

theorem bind (hp : Spares p) (hf : ∀ a, Spares (f a)) : Spares (p >>= f) :=
  hp.bindWith (.trivial p) fun a _ => hf a

theorem map {g : α → β} (hp : Spares p) : Spares (g <$> p) := by
  rw [map_eq_pure_bind]
  exact hp.bind fun a => .pure (g a)

/-- A step that is never interrupted. -/
theorem of_ok (h : ∀ c, ∃ r, p c = .ok r) : Spares p := by
  intro c i hi
  obtain ⟨r, hr⟩ := h c
  rw [hr] at hi
  cases hi

theorem kind : Spares Parse.kind := of_ok fun _ => ⟨_, rfl⟩

theorem kindBehind : Spares Parse.kindBehind := of_ok fun _ => ⟨_, rfl⟩

theorem next : Spares Parse.next := of_ok fun _ => ⟨_, rfl⟩

theorem advance : Spares Parse.advance := of_ok fun _ => ⟨_, rfl⟩

theorem spanFrom {first : Span} : Spares (Parse.spanFrom first) := of_ok fun _ => ⟨_, rfl⟩

theorem fail {expected : Expected} : Spares (Parse.fail expected : Parse α) := by
  intro c i h
  cases h
  exact fun item hitem => nomatch hitem

theorem holding (hitems : Bodiless items) (hp : Spares p) : Spares (Parse.holding items p) := by
  intro c i h
  unfold Parse.holding at h
  cases hr : p c with
  | ok r =>
      rw [hr] at h
      cases h
  | error j =>
      rw [hr] at h
      cases h
      exact hitems.append (hp c j hr)

theorem accept {k : Kind} : Spares (Parse.accept k) := by
  refine kind.bind fun k' => ?_
  split
  · exact advance.bind fun _ => .pure _
  · exact .pure _

theorem require {k : Kind} {expected : Expected} : Spares (Parse.require k expected) := by
  refine next.bind fun t => ?_
  split
  · exact advance.bind fun _ => .pure _
  · exact .fail

theorem expect {mark : Punct} {place : Place} : Spares (Parse.expect mark place) :=
  require.bind fun _ => .pure _

theorem name {role : NameRole} : Spares (Parse.name role) := require.bind fun _ => .pure _

theorem commaSeparated (hp : Spares p) {items : α → List Item} {P : α → Prop} (hP : Yields p P)
    (hitems : ∀ a, P a → Bodiless (items a)) (fuel : Nat) :
    Spares (Parse.commaSeparated p items fuel) := by
  induction fuel with
  | zero => exact hp.bind fun _ => .pure _
  | succ fuel ih =>
      refine hp.bindWith hP fun a ha => accept.bind fun more => ?_
      split
      · exact (ih.holding (hitems a ha)).bind fun _ => .pure _
      · exact .pure _

end Spares

end Parse

namespace Grammar

open Parse

/-! ## Expressions -/

theorem bodiless_looseExpr (e : Expr) : Bodiless (looseExpr e) := by
  simp [Bodiless, looseExpr, Item.isBody]

theorem bodiless_looseStmt (s : Stmt) : Bodiless (looseStmt s) := by
  simp [Bodiless, looseStmt, Item.isBody]

theorem bodiless_looseAssign (a : Assign) : Bodiless (looseAssign a) := by
  simp [Bodiless, looseAssign, Item.isBody]

theorem bodiless_flatMap {α : Type} {loose : α → List Item} (h : ∀ a, Bodiless (loose a))
    (as : List α) : Bodiless (as.flatMap loose) := by
  intro item hitem
  obtain ⟨a, -, hmem⟩ := List.mem_flatMap.1 hitem
  exact h a item hmem

theorem spares_chain {operand : Parse Expr} (hoperand : Spares operand) (tier : Tier)
    (fuel : Nat) (left : Expr) : Spares (chain tier operand fuel left) := by
  induction fuel generalizing left with
  | zero => exact .pure left
  | succ fuel ih =>
      refine Spares.kind.bind fun k => ?_
      split
      · exact .pure left
      · refine Spares.advance.bind fun _ => ?_
        exact (hoperand.holding (bodiless_looseExpr left)).bind fun right => ih _

theorem spares_expressionOver {operand : Parse Expr} (hoperand : Spares operand) (fuel : Nat) :
    Spares (expressionOver fuel operand) := by
  unfold expressionOver
  induction Tier.all with
  | nil => exact hoperand
  | cons tier rest ih => exact ih.bind fun left => spares_chain ih tier fuel left

section

variable {expression : Parse Expr} (hexpression : Spares expression)

include hexpression

theorem spares_arguments (fuel : Nat) : Spares (Grammar.arguments fuel expression) := by
  have hclose : ∀ args : List Expr, Spares (do
      holding (args.flatMap looseExpr) (expect .rightParen .arguments)
      return args) := fun args =>
    (Spares.expect.holding (bodiless_flatMap bodiless_looseExpr args)).bind fun _ => .pure _
  refine Spares.expect.bind fun _ => Spares.kind.bind fun k => ?_
  dsimp only
  split
  · exact (Spares.pure _).bind hclose
  · refine (hexpression.commaSeparated (.trivial _) ?_ fuel).bind hclose
    exact fun a _ => bodiless_looseExpr a

theorem spares_index : Spares (Grammar.index expression) :=
  hexpression.bind fun i =>
    (Spares.expect.holding (bodiless_looseExpr i)).bind fun _ => .pure _

theorem spares_named (fuel : Nat) (name : String) (span : Span) :
    Spares (named fuel expression name span) := by
  refine Spares.kind.bind fun k => ?_
  split
  · exact (spares_arguments hexpression fuel).bind fun _ => Spares.spanFrom.bind fun _ => .pure _
  · refine Spares.accept.bind fun found => ?_
    split
    · exact (spares_index hexpression).bind fun _ => Spares.spanFrom.bind fun _ => .pure _
    · exact .pure _

theorem spares_parenthesized (span : Span) : Spares (parenthesized expression span) := by
  refine hexpression.bind fun inner => ?_
  refine (Spares.expect.holding (bodiless_looseExpr inner)).bind fun _ => ?_
  exact Spares.spanFrom.bind fun _ => .pure _

end

theorem spares_operandOver {operand : Parse Expr} (hoperand : Spares operand) (fuel : Nat) :
    Spares (operandOver fuel operand) := by
  have hexpression := spares_expressionOver hoperand fuel
  refine Spares.next.bind fun t => ?_
  split
  · exact Spares.advance.bind fun _ => .pure _
  · exact Spares.advance.bind fun _ => .pure _
  · exact Spares.advance.bind fun _ => .pure _
  · exact Spares.advance.bind fun _ => spares_named hexpression fuel _ _
  · exact Spares.advance.bind fun _ => spares_parenthesized hexpression _
  · split
    · exact Spares.advance.bind fun _ => hoperand.bind fun _ => .pure _
    · exact .fail
  · exact .fail

theorem spares_operand (fuel : Nat) : Spares (operand fuel) := by
  induction fuel with
  | zero => exact .fail
  | succ fuel ih => exact spares_operandOver ih fuel

theorem spares_expression (fuel : Nat) : Spares (expression fuel) :=
  spares_expressionOver (spares_operand fuel) fuel

/-! ## Statements -/

theorem spares_optionalBefore {α : Type} {p : Parse α} (hp : Spares p) (mark : Punct) :
    Spares (optionalBefore mark p) := by
  refine Spares.kind.bind fun k => ?_
  split
  · exact .pure _
  · exact hp.bind fun _ => .pure _

theorem spares_assignment (fuel : Nat) : Spares (assignment fuel) := by
  have htarget : Spares (target fuel) := by
    refine Spares.name.bind fun name => Spares.accept.bind fun found => ?_
    split
    · refine (spares_index (spares_expression fuel)).bind fun i => ?_
      exact Spares.spanFrom.bind fun _ => .pure _
    · exact .pure _
  refine htarget.bind fun place => ?_
  refine ((Spares.expect.bind fun _ => spares_expression fuel).holding ?_).bind fun value =>
    Spares.spanFrom.bind fun _ => .pure _
  simp [Bodiless, Item.isBody]

theorem spares_condition (fuel : Nat) (place : Place) : Spares (condition fuel place) := by
  refine Spares.expect.bind fun _ => (spares_expression fuel).bind fun test => ?_
  exact (Spares.expect.holding (bodiless_looseExpr test)).bind fun _ => .pure _

section

variable {statement : Parse Stmt} (hstatement : Spares statement)

include hstatement

theorem spares_branch (fuel : Nat) (span : Span) : Spares (branch fuel statement span) := by
  refine (spares_condition fuel _).bind fun test => .holding (bodiless_looseExpr test) ?_
  refine hstatement.bind fun thenPart => Spares.accept.bind fun found => ?_
  split
  · refine (hstatement.holding (bodiless_looseStmt thenPart)).bind fun elsePart => ?_
    exact Spares.spanFrom.bind fun _ => .pure _
  · exact Spares.spanFrom.bind fun _ => .pure _

theorem spares_whileLoop (fuel : Nat) (span : Span) : Spares (whileLoop fuel statement span) := by
  refine (spares_condition fuel _).bind fun test => ?_
  refine (hstatement.holding (bodiless_looseExpr test)).bind fun body => ?_
  exact Spares.spanFrom.bind fun _ => .pure _

theorem spares_forLoop (fuel : Nat) (span : Span) : Spares (forLoop fuel statement span) := by
  have hassignment := spares_assignment fuel
  refine Spares.expect.bind fun _ => (spares_optionalBefore hassignment _).bind fun start => ?_
  refine .holding (bodiless_flatMap bodiless_looseAssign _) (Spares.expect.bind fun _ => ?_)
  refine (spares_optionalBefore (spares_expression fuel) _).bind fun test => ?_
  refine .holding (bodiless_flatMap bodiless_looseExpr _) (Spares.expect.bind fun _ => ?_)
  refine (spares_optionalBefore hassignment _).bind fun update => ?_
  refine .holding (bodiless_flatMap bodiless_looseAssign _) (Spares.expect.bind fun _ => ?_)
  exact hstatement.bind fun body => Spares.spanFrom.bind fun _ => .pure _

theorem spares_statements (fuel : Nat) : Spares (statements statement fuel) := by
  induction fuel with
  | zero => exact .pure _
  | succ fuel ih =>
      refine Spares.kind.bind fun k => ?_
      split
      · exact .pure _
      · exact hstatement.bind fun s =>
          (ih.holding (bodiless_looseStmt s)).bind fun _ => .pure _

theorem spares_block (fuel : Nat) : Spares (block fuel statement) := by
  refine (spares_statements hstatement fuel).bind fun body => ?_
  exact (Spares.expect.holding (bodiless_flatMap bodiless_looseStmt body)).bind fun _ => .pure _

end

theorem spares_ret (fuel : Nat) (span : Span) : Spares (ret fuel span) := by
  refine (spares_optionalBefore (spares_expression fuel) _).bind fun value => ?_
  refine (Spares.expect.holding (bodiless_flatMap bodiless_looseExpr _)).bind fun _ => ?_
  exact Spares.spanFrom.bind fun _ => .pure _

theorem spares_callStatement (fuel : Nat) : Spares (callStatement fuel) := by
  refine Spares.name.bind fun name => ?_
  refine (spares_arguments (spares_expression fuel) fuel).bind fun args => ?_
  refine Spares.spanFrom.bind fun _ => ?_
  exact (Spares.expect.holding (bodiless_flatMap bodiless_looseExpr args)).bind fun _ => .pure _

theorem spares_assignStatement (fuel : Nat) : Spares (assignStatement fuel) :=
  (spares_assignment fuel).bind fun a =>
    (Spares.expect.holding (bodiless_looseAssign a)).bind fun _ => .pure _

theorem spares_statementOver {statement : Parse Stmt} (hstatement : Spares statement)
    (fuel : Nat) : Spares (statementOver fuel statement) := by
  refine Spares.next.bind fun t => ?_
  split
  · exact Spares.advance.bind fun _ => spares_branch hstatement fuel _
  · exact Spares.advance.bind fun _ => spares_whileLoop hstatement fuel _
  · exact Spares.advance.bind fun _ => spares_forLoop hstatement fuel _
  · exact Spares.advance.bind fun _ => spares_ret fuel _
  · exact Spares.advance.bind fun _ => spares_block hstatement fuel
  · exact Spares.advance.bind fun _ => .pure _
  · refine Spares.kindBehind.bind fun k => ?_
    split
    · exact spares_callStatement fuel
    · exact spares_assignStatement fuel
  · exact .fail

theorem spares_statement (fuel : Nat) : Spares (statement fuel) := by
  induction fuel with
  | zero => exact .fail
  | succ fuel ih => exact spares_statementOver ih fuel

/-! ## Declarations -/

theorem declarator_yields (name : String) (span : Span) :
    Yields (declarator name span) fun item => item.isBody = false := fun c item c' hr =>
  Item.isBody_of_variable (declarator_moves (by simp) name span c item c' hr)

theorem declarators_yields (fuel : Nat) (name : String) (span : Span) :
    Yields (declarators fuel name span) Bodiless := fun c items c' hr =>
  .of_variables (declarators_moves (by simp) fuel name span c items c' hr)

theorem locals_yields (bound fuel : Nat) : Yields (locals bound fuel) Bodiless :=
  fun c items c' hr => .of_variables (locals_moves bound fuel c items c' hr)

theorem spares_typeWord : Spares typeWord := by
  refine Spares.kind.bind fun k => ?_
  split
  · exact Spares.advance.bind fun _ => .pure _
  · exact .fail

theorem spares_declarator (name : String) (span : Span) : Spares (declarator name span) := by
  refine Spares.accept.bind fun isArray => ?_
  split
  · refine Spares.require.bind fun size => Spares.expect.bind fun _ => ?_
    exact Spares.spanFrom.bind fun _ => .pure _
  · exact .pure _

theorem spares_declarators (fuel : Nat) (name : String) (span : Span) :
    Spares (declarators fuel name span) := by
  have hanother : Spares (Parse.name .object >>= fun r => declarator r.1 r.2) :=
    Spares.name.bind fun r => spares_declarator r.1 r.2
  have hyields : Yields (Parse.name .object >>= fun r => declarator r.1 r.2)
      fun item => item.isBody = false := .after fun r => declarator_yields r.1 r.2
  have hsingle : ∀ item : Item, item.isBody = false → Bodiless [item] := fun _ h =>
    List.forall_mem_singleton.2 h
  unfold declarators
  refine (spares_declarator name span).bindWith (declarator_yields name span)
    fun first hfirst => ?_
  refine Spares.bindWith (P := Bodiless) (.holding (hsingle first hfirst) ?_) (.holding ?_)
    fun others hothers => ?_
  · refine Spares.accept.bind fun more => ?_
    split
    · exact hanother.commaSeparated hyields hsingle fuel
    · exact .pure _
  · refine .after fun more => ?_
    split
    · exact .commaSeparated hyields _ _
    · exact .pure (by simp [Bodiless])
  · refine (Spares.expect.holding ?_).bind fun _ => .pure _
    exact List.forall_mem_cons.2 ⟨hfirst, hothers⟩

theorem spares_param : Spares param := by
  refine spares_typeWord.bind fun spec => Spares.name.bind fun name => ?_
  refine Spares.accept.bind fun isArray => ?_
  dsimp only
  split
  · exact Spares.expect.bind fun _ => .pure _
  · exact .pure _

theorem spares_parameters (fuel : Nat) : Spares (parameters fuel) := by
  have hclose : ∀ params : List Param, Spares (do
      expect .rightParen .parameters
      return params) := fun params => Spares.expect.bind fun _ => .pure _
  refine Spares.expect.bind fun _ => Spares.kind.bind fun k => Spares.kindBehind.bind fun k' => ?_
  dsimp only
  split
  · exact Spares.advance.bind fun _ => (Spares.pure _).bind hclose
  · split
    · exact (Spares.pure _).bind hclose
    · refine (spares_param.commaSeparated (.trivial _) ?_ fuel).bind hclose
      exact fun _ _ item hitem => nomatch hitem

theorem spares_prototype (fuel : Nat) : Spares (prototype fuel) :=
  Spares.name.bind fun _ => (spares_parameters fuel).bind fun _ => .pure _

theorem spares_prototypes (fuel : Nat) : Spares (prototypes fuel) := by
  have hprototypes := Yields.commaSeparated (prototype_yields fuel) (fun items => items) fuel
  have hclose : ∀ others, Bodiless others → Spares (do
      holding others (expect .semicolon .prototype)
      return others ++ [.endPrototypes]) := fun others hothers =>
    (Spares.expect.holding hothers).bind fun _ => .pure _
  unfold prototypes
  refine Spares.accept.bind fun more => ?_
  dsimp only
  split
  · refine Spares.bindWith ?_ (hprototypes.map fun _ => .flatten) hclose
    exact ((spares_prototype fuel).commaSeparated (prototype_yields fuel) (fun _ h => h) fuel).map
  · exact (Spares.pure []).bindWith (.pure (by simp [Bodiless])) hclose

theorem spares_locals (bound fuel : Nat) : Spares (locals bound fuel) := by
  induction fuel with
  | zero => exact .pure _
  | succ fuel ih =>
      refine Spares.kind.bind fun k => ?_
      split
      · refine spares_typeWord.bind fun spec => Spares.name.bind fun name => ?_
        have hspec : Item.isBody (.spec spec) = false := rfl
        refine Spares.bindWith ((spares_declarators bound _ _).holding ?_)
          (declarators_yields bound _ _).holding fun declared hdeclared => ?_
        · exact List.forall_mem_singleton.2 hspec
        · exact (ih.holding (List.forall_mem_cons.2 ⟨hspec, hdeclared⟩)).bind fun _ => .pure _
      · exact .pure _

theorem spares_functionBody (fuel : Nat) : Spares (functionBody fuel) := by
  unfold functionBody
  refine Spares.expect.bind fun _ => ?_
  refine (spares_locals fuel fuel).bindWith (locals_yields fuel fuel) fun declared hdeclared => ?_
  refine .holding hdeclared ?_
  refine (spares_statements (spares_statement fuel) fuel).bind fun body => ?_
  refine Spares.next.bind fun closing => ?_
  exact (Spares.expect.holding (bodiless_flatMap bodiless_looseStmt body)).bind fun _ => .pure _

theorem spares_afterHeader (fuel : Nat) (isExtern : Bool) {header : Item}
    (hheader : header.isBody = false) : Spares (afterHeader fuel isExtern header) := by
  have hopening : ∀ item : Item, item.isBody = false → Bodiless [header, item] := fun _ h =>
    List.forall_mem_cons.2 ⟨hheader, List.forall_mem_singleton.2 h⟩
  refine Spares.kind.bind fun k => ?_
  split
  · exact ((spares_functionBody fuel).holding (hopening _ rfl)).bind fun _ => .pure _
  · exact ((spares_prototypes fuel).holding (hopening _ rfl)).bind fun _ => .pure _

/-- **A declaration that is cut short hands no function over.** -/
theorem spares_declaration (fuel : Nat) : Spares (declaration fuel) := by
  unfold declaration
  refine Spares.accept.bind fun isExtern => spares_typeWord.bind fun spec => ?_
  refine Spares.name.bind fun name => .holding ?_ (Spares.kind.bind fun k => ?_)
  · cases isExtern <;> simp [Bodiless, Item.isBody]
  · split
    · refine (spares_parameters fuel).bind fun params => ?_
      exact (spares_afterHeader fuel isExtern rfl).bind fun _ => .pure _
    · split
      · exact .fail
      · exact (spares_declarators fuel _ _).bind fun _ => .pure _

end Grammar

end Cmm
