import Cmm.Grammar.Statement
import Cmm.Proofs.Nesting.Checks
import Cmm.Proofs.Nesting.Lays

/-!
# Where phrases stand

* `Expr.Laid`, `Assign.Laid`, `Stmt.Laid` — the checked tree of a phrase stands between two places.
* `Grammar.lays_expression`, `Grammar.lays_assignment`, `Grammar.lays_statement` — that of a phrase
  that is read stands between the token before its first one and the end of its last one. One lemma
  per production.
-/

set_option autoImplicit false

namespace Cmm

variable {t : Table} {result : TypeSpec} {lo : Nat}

/-- The checked tree of an expression stands between two places. -/
def Expr.Laid (t : Table) (lo hi : Nat) (e : Expr) : Prop := Node.Laid lo hi [(e.check t).value]

/-- The checked tree of an assignment stands between two places. -/
def Assign.Laid (t : Table) (lo hi : Nat) (a : Assign) : Prop := Node.Laid lo hi [(a.check t).value]

/-- The checked tree of a statement, if it has one, stands between two places. -/
def Stmt.Laid (t : Table) (result : TypeSpec) (lo hi : Nat) (s : Stmt) : Prop :=
  Node.Laid lo hi (s.check t result).value.toList

theorem Expr.value_checkAll (es : List Expr) :
    (Expr.checkAll t es).value = es.map fun e => (e.check t).value := by
  induction es with
  | nil => rfl
  | cons e rest ih =>
      rw [Expr.checkAll, Checked.value_bind, Checked.value_bind, Checked.value_pure, ih,
        List.map_cons]

namespace Grammar

open Parse
open Cursor (Behind Between)

variable {n size : Nat}

/-! ## Expressions -/

/-- What a parser reads as an expression stands between the token before and the last one. -/
def LaysExpr (n size : Nat) (t : Table) (p : Parse Expr) : Prop :=
  ∀ s, Lays n size (Behind s) p fun s' e => e.Laid t s.stop s'.stop

theorem lays_chain {operand : Parse Expr} (h : LaysExpr n size t operand) (tier : Tier)
    (fuel : Nat) {left : Expr} {s : Span} (hleft : left.Laid t lo s.stop) :
    Lays n size (Behind s) (chain tier operand fuel left) fun s' e => e.Laid t lo s'.stop := by
  induction fuel generalizing left s with
  | zero => exact .pure hleft
  | succ fuel ih =>
      refine .kind fun k => ?_
      cases operatorOf tier k with
      | none => exact .pure hleft
      | some op =>
          refine Lays.move.bind fun s₁ _ hupTo _ => (h s₁).holding.bind fun s₂ right _ hright => ?_
          have hbefore : left.Laid t lo s₁.stop := hleft.mono (Nat.le_refl _) hupTo.stop
          have hwhole : (Expr.binary op left right).Laid t lo s₂.stop := by
            rw [Expr.Laid, Expr.check, Checked.value_bind, Checked.value_bind]
            exact Typing.laid_binary op hbefore hright
          exact ih hwhole

theorem lays_expressionOver {operand : Parse Expr} (h : LaysExpr n size t operand) (fuel : Nat) :
    LaysExpr n size t (expressionOver fuel operand) := by
  unfold expressionOver
  induction Tier.all with
  | nil => exact h
  | cons tier rest ih =>
      intro s
      exact (ih s).bind fun _ left _ hleft => lays_chain ih tier fuel hleft

section

variable {expression : Parse Expr} (h : LaysExpr n size t expression)

include h

theorem lays_arguments (fuel : Nat) (s : Span) :
    Lays n size (Behind s) (Grammar.arguments fuel expression) fun s' es =>
      Node.Laid s.stop s'.stop (Expr.checkAll t es).value := by
  have hclose {s₁ s₂ : Span} {es : List Expr} (hopen : s.UpTo s₁)
      (hes : Node.Laid s₁.stop s₂.stop (es.map fun e => (e.check t).value)) :
      Lays n size (Behind s₂)
        (do holding (es.flatMap looseExpr) (expect .rightParen .arguments); return es)
        fun s' es => Node.Laid s.stop s'.stop (Expr.checkAll t es).value := by
    refine .close fun s' hupTo => ?_
    rw [Expr.value_checkAll]
    exact hes.mono hopen.stop hupTo.stop
  refine Lays.expect.bind fun s₁ _ hopen _ => .kind fun k => ?_
  dsimp only
  split
  · exact hclose hopen (Node.laid_nil (Nat.le_refl _))
  · exact (Lays.commaSeparated h looseExpr fuel s₁).bind fun _ _ _ hes => hclose hopen hes

theorem lays_index (s : Span) :
    Lays n size (Behind s) (Grammar.index expression) fun s' e => e.Laid t s.stop s'.stop :=
  (h s).bind fun _ _ _ he => .close fun _ hupTo => he.mono (Nat.le_refl _) hupTo.stop

/-- What begins with a name that has just been read. -/
theorem lays_named (ht : t.Sound) (fuel : Nat) (name : String) {s : Span}
    (nonempty : s.offset < s.stop) :
    Lays n size (Behind s) (named fuel expression name s) fun s' e =>
      e.Laid t s.offset s'.stop := by
  refine .kind fun k => ?_
  split
  · refine (lays_arguments h fuel s).bind fun s' es hupTo hes => ?_
    refine .spanFrom hupTo fun span hoffset hstop => .pure ?_
    rw [Expr.Laid, Expr.check, Checked.value_bind]
    have hargs := Node.laid_argumentList hes
    exact (Typing.covers_call ht name _ span).laid_behind hoffset hstop hargs nonempty
  · refine .accept (fun s₁ hupTo => ?_) (.pure ?_)
    · refine (lays_index h s₁).bind fun s' i hupTo' hi => ?_
      refine .spanFrom (hupTo.trans hupTo') fun span hoffset hstop => .pure ?_
      rw [Expr.Laid, Expr.check, Checked.value_bind]
      have hbehind : s.offset < s₁.stop := Nat.lt_of_lt_of_le nonempty hupTo.stop
      exact (Typing.covers_element ht name _ span).laid_behind hoffset hstop hi hbehind
    · rw [Expr.Laid, Expr.check]
      exact (Typing.covers_var ht name s).laid (Node.laid_nil s.offset_le_stop) nonempty
        (Nat.le_refl _) (Nat.le_refl _)

/-- Behind an opening parenthesis. -/
theorem lays_parenthesized {s : Span} (nonempty : s.offset < s.stop) :
    Lays n size (Behind s) (parenthesized expression s) fun s' e =>
      e.Laid t s.offset s'.stop := by
  refine (h s).bind fun s₁ inner hupTo hinner => ?_
  refine Lays.expect.holding.bind fun s₂ _ hupTo' _ => ?_
  refine .spanFrom (hupTo.trans hupTo') fun span hoffset hstop => .pure ?_
  rw [Expr.Laid, Expr.check, Checked.value_bind]
  refine Node.laid_widened hoffset hstop ?_
  exact Node.Laid.mono hinner (Nat.le_of_lt nonempty) hupTo'.stop

end

/-- A constant stands where its token does. -/
theorem laid_constant {x : Checked Node} {s s' : Span} (h : Typing.Covers x s' [])
    (behind : s.stop ≤ s'.offset) (nonempty : s'.offset < s'.stop) :
    Node.Laid s.stop s'.stop [x.value] :=
  h.laid (Node.laid_nil (Nat.le_of_lt nonempty)) nonempty behind (Nat.le_refl _)

theorem lays_operandOver (ht : t.Sound) {operand : Parse Expr} (h : LaysExpr n size t operand)
    (fuel : Nat) : LaysExpr n size t (operandOver fuel operand) := by
  intro s
  have hexpression := lays_expressionOver h fuel
  refine .next fun token => ?_
  obtain ⟨kind, text, span⟩ := token
  cases kind with
  | intLiteral =>
      refine .advance (by simp) fun behind nonempty => .pure ?_
      refine laid_constant ?_ behind nonempty
      rw [Expr.check]
      cases Numeral.constant? text with
      | none => exact .of_refused (Typing.refused_fail _ _ _)
      | some value => exact ⟨rfl, .inl rfl⟩
  | charLiteral =>
      refine .advance (by simp) fun behind nonempty => .pure ?_
      exact laid_constant ⟨rfl, .inl rfl⟩ behind nonempty
  | stringLiteral =>
      refine .advance (by simp) fun behind nonempty => .pure ?_
      exact laid_constant ⟨rfl, .inl rfl⟩ behind nonempty
  | identifier =>
      exact .opened (by simp) fun nonempty => lays_named hexpression ht fuel text nonempty
  | punct mark =>
      cases mark with
      | leftParen =>
          exact .opened (by simp) fun nonempty => lays_parenthesized hexpression nonempty
      | minus | bang =>
          refine .advance (by simp) fun behind nonempty => (h span).bind fun s' inner _ hinner => ?_
          refine .pure ?_
          rw [Expr.Laid, Expr.check, Checked.value_bind]
          exact Typing.laid_unary _ behind nonempty hinner
      | plus | star | slash | less | greater | equal | equalEqual | bangEqual | lessEqual
      | greaterEqual | andAnd | orOr | comma | semicolon | rightParen | leftBrace | rightBrace
      | leftBracket | rightBracket => exact .fail
  | typeWord | keyword | endOfFile | invalid => exact .fail

theorem lays_operand (ht : t.Sound) (fuel : Nat) : LaysExpr n size t (operand fuel) := by
  induction fuel with
  | zero => exact fun s => .fail
  | succ fuel ih => exact lays_operandOver ht ih fuel

theorem lays_expression (ht : t.Sound) (fuel : Nat) : LaysExpr n size t (expression fuel) :=
  lays_expressionOver (lays_operand ht fuel) fuel

/-! ## Statements -/

/-- The tree of a part that may be missing. -/
theorem lays_optionalBefore {α : Type} {p : Parse α} {check : α → Checked Node} {s : Span}
    (h : Lays n size (Behind s) p fun s' a => Node.Laid s.stop s'.stop [(check a).value])
    (mark : Punct) :
    Lays n size (Behind s) (optionalBefore mark p) fun s' a? =>
      Node.Laid s.stop s'.stop (Checked.option check a?).value.toList := by
  refine .kind fun k => ?_
  split
  · exact .pure (Node.laid_nil (Nat.le_refl _))
  · exact h.bind fun s' a _ ha => .pure ha

/-- A target stands between its name and the last token. -/
theorem lays_target (ht : t.Sound) (fuel : Nat) (s : Span) :
    Lays n size (Behind s) (target fuel) fun s' r =>
      s.stop ≤ r.2.offset ∧ r.2.offset < r.2.stop ∧ r.2.UpTo s' ∧
        Node.Laid r.2.offset s'.stop [(r.1.check t).value] := by
  refine Lays.name.bind fun s₁ r _ hname => ?_
  obtain ⟨name, span⟩ := r
  obtain ⟨hspan, behind, nonempty⟩ := hname
  obtain rfl : span = s₁ := hspan
  refine .accept (fun s₂ hupTo => ?_) (.pure ?_)
  · refine (lays_index (lays_expression ht fuel) s₂).bind fun s' i hupTo' hi => ?_
    refine .spanFrom (hupTo.trans hupTo') fun whole hoffset hstop => .pure ?_
    have hbehind : span.offset < s₂.stop := Nat.lt_of_lt_of_le nonempty hupTo.stop
    refine ⟨behind, nonempty, hupTo.trans hupTo', ?_⟩
    exact (Typing.covers_element ht name _ whole).laid_behind hoffset hstop hi hbehind
  · refine ⟨behind, nonempty, .refl _, ?_⟩
    exact (Typing.covers_var ht name span).laid (Node.laid_nil span.offset_le_stop) nonempty
      (Nat.le_refl _) (Nat.le_refl _)

theorem lays_assignment (ht : t.Sound) (fuel : Nat) (s : Span) :
    Lays n size (Behind s) (assignment fuel) fun s' a => a.Laid t s.stop s'.stop := by
  refine (lays_target ht fuel s).bind fun s₁ r _ ⟨behind, nonempty, hupTo, htarget⟩ => ?_
  have hvalue : Lays n size (Behind s₁) (do expect .equal .target; expression fuel)
      fun s' e => e.Laid t s₁.stop s'.stop :=
    Lays.expect.bind fun s₂ _ hmark _ => (lays_expression ht fuel s₂).imp fun s' e he =>
      he.mono hmark.stop (Nat.le_refl _)
  refine hvalue.holding.bind fun s' e hupTo' he => ?_
  refine .spanFrom (hupTo.trans hupTo') fun span hoffset hstop => .pure ?_
  rw [Assign.Laid, Assign.check, Checked.value_bind, Checked.value_bind]
  exact (Typing.laid_assign hoffset hstop (htarget.append he)).mono behind (Nat.le_refl _)

/-- What a parser reads as a statement stands between the token before and the last one. -/
def LaysStmt (n size : Nat) (t : Table) (result : TypeSpec) (p : Parse Stmt) : Prop :=
  ∀ s, Lays n size (Behind s) p fun s' stmt => stmt.Laid t result s.stop s'.stop

theorem lays_condition (ht : t.Sound) (fuel : Nat) (place : Place) (s : Span) :
    Lays n size (Behind s) (condition fuel place) fun s' e => e.Laid t s.stop s'.stop := by
  refine Lays.expect.bind fun s₁ _ hopen _ => ?_
  refine (lays_expression ht fuel s₁).bind fun _ test _ he => ?_
  exact .close fun s' hupTo => he.mono hopen.stop hupTo.stop

section

variable {statement : Parse Stmt} (h : LaysStmt n size t result statement)

include h

/-- Behind the word of an if statement. -/
theorem lays_branch (ht : t.Sound) (fuel : Nat) {s : Span} (nonempty : s.offset < s.stop) :
    Lays n size (Behind s) (branch fuel statement s) fun s' stmt =>
      stmt.Laid t result s.offset s'.stop := by
  refine (lays_condition ht fuel _ s).bind fun s₁ test hupTo htest => .holding ?_
  refine (h s₁).bind fun s₂ thenPart hupTo' hthen => ?_
  have hopening := hupTo.trans hupTo'
  refine .accept (fun s₃ hword => (h s₃).holding.bind fun s' elsePart hupTo'' helse => ?_) ?_
  · refine .spanFrom ((hopening.trans hword).trans hupTo'') fun span hoffset hstop => .pure ?_
    rw [Stmt.Laid, Stmt.check, Checked.value_bind, Checked.value_bind, Checked.value_bind,
      Checked.value_map, Stmt.checkElse]
    have hparts := (Node.Laid.append htest hthen).append (helse.mono hword.stop (Nat.le_refl _))
    exact (Typing.covers_branch _ _ _ span).laid_behind hoffset hstop hparts nonempty
  · refine .spanFrom hopening fun span hoffset hstop => .pure ?_
    rw [Stmt.Laid, Stmt.check, Checked.value_bind, Checked.value_bind, Checked.value_bind,
      Checked.value_map, Stmt.checkElse, Checked.value_pure]
    refine (Typing.covers_branch _ _ none span).laid_behind hoffset hstop ?_ nonempty
    simpa using Node.Laid.append htest hthen

/-- Behind the word of a while loop. -/
theorem lays_whileLoop (ht : t.Sound) (fuel : Nat) {s : Span} (nonempty : s.offset < s.stop) :
    Lays n size (Behind s) (whileLoop fuel statement s) fun s' stmt =>
      stmt.Laid t result s.offset s'.stop := by
  refine (lays_condition ht fuel _ s).bind fun s₁ test hupTo htest => ?_
  refine (h s₁).holding.bind fun s' body hupTo' hbody => ?_
  refine .spanFrom (hupTo.trans hupTo') fun span hoffset hstop => .pure ?_
  rw [Stmt.Laid, Stmt.check, Checked.value_bind, Checked.value_bind, Checked.value_map]
  have hparts := Node.Laid.append htest hbody
  exact (Typing.covers_whileLoop _ _ span).laid_behind hoffset hstop hparts nonempty

/-- Behind the word of a for loop. -/
theorem lays_forLoop (ht : t.Sound) (fuel : Nat) {s : Span} (nonempty : s.offset < s.stop) :
    Lays n size (Behind s) (forLoop fuel statement s) fun s' stmt =>
      stmt.Laid t result s.offset s'.stop := by
  refine Lays.expect.bind fun s₁ _ hopen _ => ?_
  refine (lays_optionalBefore (lays_assignment ht fuel s₁) _).bind fun s₂ start h₁ hstart => ?_
  refine .holding (Lays.expect.bind fun s₃ _ hfirst _ => ?_)
  refine (lays_optionalBefore (lays_expression ht fuel s₃) _).bind fun s₄ test h₂ htest => ?_
  refine .holding (Lays.expect.bind fun s₅ _ hsecond _ => ?_)
  refine (lays_optionalBefore (lays_assignment ht fuel s₅) _).bind fun s₆ update h₃ hupdate => ?_
  refine .holding (Lays.expect.bind fun s₇ _ hclose _ => (h s₇).bind fun s' body h₄ hbody => ?_)
  -- Each part begins where the mark behind the one before ends.
  have hparts := ((Node.Laid.append (hstart.mono (Nat.le_refl _) hfirst.stop)
    (htest.mono (Nat.le_refl _) hsecond.stop)).append
      (hupdate.mono (Nat.le_refl _) hclose.stop)).append hbody
  have hway := ((((((hopen.trans h₁).trans hfirst).trans h₂).trans hsecond).trans h₃).trans
    hclose).trans h₄
  refine .spanFrom hway fun span hoffset hstop => .pure ?_
  have hbehind : s.offset < s₁.stop := Nat.lt_of_lt_of_le nonempty hopen.stop
  rw [Stmt.Laid, Stmt.check]
  exact (Typing.covers_forLoop _ _ _ _ span).laid_behind hoffset hstop hparts hbehind

theorem lays_statements (fuel : Nat) (s : Span) :
    Lays n size (Behind s) (statements statement fuel) fun s' body =>
      Node.Laid s.stop s'.stop (Stmt.checkBody t result body).value.toList := by
  induction fuel generalizing s with
  | zero => exact .pure (Node.laid_nil (Nat.le_refl _))
  | succ fuel ih =>
      refine .kind fun k => ?_
      split
      · exact .pure (Node.laid_nil (Nat.le_refl _))
      · refine (h s).bind fun s₁ first _ hfirst => (ih s₁).holding.bind fun s' rest _ hrest => ?_
        refine .pure ?_
        rw [Stmt.checkBody]
        exact Node.laid_statementList hfirst hrest

/-- Behind the opening brace of a block. -/
theorem lays_block (fuel : Nat) (s : Span) :
    Lays n size (Behind s) (block fuel statement) fun s' stmt =>
      stmt.Laid t result s.stop s'.stop :=
  (lays_statements h fuel s).bind fun s₁ body _ hbody => .close fun s' hupTo => by
    rw [Stmt.Laid, Stmt.check]
    exact hbody.mono (Nat.le_refl _) hupTo.stop

end

/-- Behind the word of a return. -/
theorem lays_ret (ht : t.Sound) (fuel : Nat) {s : Span} (nonempty : s.offset < s.stop) :
    Lays n size (Behind s) (ret fuel s) fun s' stmt => stmt.Laid t result s.offset s'.stop := by
  refine (lays_optionalBefore (lays_expression ht fuel s) _).bind fun s₁ value hupTo hvalue => ?_
  refine Lays.expect.holding.bind fun s' _ hupTo' _ => ?_
  refine .spanFrom (hupTo.trans hupTo') fun span hoffset hstop => .pure ?_
  rw [Stmt.Laid, Stmt.check]
  have hpart := hvalue.mono (Nat.le_refl _) hupTo'.stop
  exact (Typing.covers_ret _ _ span).laid_behind hoffset hstop hpart nonempty

theorem lays_callStatement (ht : t.Sound) (fuel : Nat) (s : Span) :
    Lays n size (Behind s) (callStatement fuel) fun s' stmt =>
      stmt.Laid t result s.stop s'.stop := by
  refine Lays.name.bind fun s₁ r _ hname => ?_
  obtain ⟨name, span⟩ := r
  obtain ⟨hspan, behind, nonempty⟩ := hname
  obtain rfl : span = s₁ := hspan
  refine (lays_arguments (lays_expression ht fuel) fuel span).bind fun s₂ args hupTo hargs => ?_
  refine .spanFrom hupTo fun whole hoffset hstop => .close fun s' hupTo' => ?_
  rw [Stmt.Laid, Stmt.check]
  have hparts := Node.laid_argumentList hargs
  refine Node.Laid.mono ?_ behind hupTo'.stop
  exact (Typing.covers_callStatement ht name _ whole).laid_behind hoffset hstop hparts nonempty

theorem lays_assignStatement (ht : t.Sound) (fuel : Nat) (s : Span) :
    Lays n size (Behind s) (assignStatement fuel) fun s' stmt =>
      stmt.Laid t result s.stop s'.stop := by
  refine (lays_assignment ht fuel s).bind fun s₁ a _ ha => .close fun s' hupTo => ?_
  rw [Stmt.Laid, Stmt.check]
  exact ha.mono (Nat.le_refl _) hupTo.stop

theorem lays_statementOver (ht : t.Sound) {statement : Parse Stmt}
    (h : LaysStmt n size t result statement) (fuel : Nat) :
    LaysStmt n size t result (statementOver fuel statement) := by
  intro s
  refine .next fun token => ?_
  obtain ⟨kind, text, span⟩ := token
  cases kind with
  | keyword word =>
      cases word with
      | ifWord => exact .opened (by simp) fun nonempty => lays_branch h ht fuel nonempty
      | whileWord => exact .opened (by simp) fun nonempty => lays_whileLoop h ht fuel nonempty
      | forWord => exact .opened (by simp) fun nonempty => lays_forLoop h ht fuel nonempty
      | returnWord => exact .opened (by simp) fun nonempty => lays_ret ht fuel nonempty
      | elseWord | external => exact .fail
  | punct mark =>
      cases mark with
      | leftBrace =>
          refine .advance (by simp) fun behind nonempty => ?_
          refine (lays_block h fuel span).imp fun s' stmt hs => ?_
          exact hs.mono (Nat.le_trans behind (Nat.le_of_lt nonempty)) (Nat.le_refl _)
      | semicolon =>
          refine .advance (by simp) fun behind nonempty => .pure ?_
          exact Node.laid_nil (Nat.le_trans behind (Nat.le_of_lt nonempty))
      | plus | minus | star | slash | less | greater | bang | equal | equalEqual | bangEqual
      | lessEqual | greaterEqual | andAnd | orOr | comma | leftParen | rightParen | rightBrace
      | leftBracket | rightBracket => exact .fail
  | identifier =>
      refine .anyToken (.kindBehind fun k => ?_)
      split
      · exact lays_callStatement ht fuel s
      · exact lays_assignStatement ht fuel s
  | intLiteral | charLiteral | stringLiteral | typeWord | endOfFile | invalid => exact .fail

theorem lays_statement (ht : t.Sound) (result : TypeSpec) (fuel : Nat) :
    LaysStmt n size t result (statement fuel) := by
  induction fuel with
  | zero => exact fun s => .fail
  | succ fuel ih => exact lays_statementOver ht ih fuel

end Grammar

end Cmm
