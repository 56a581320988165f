import Cmm.Grammar.Program
import Cmm.Proofs.Halting.Walks

/-!
# Every production halts

One lemma per production: where at most `n` tokens are left and the fuel is no less, the production
walks a way that ends, and does the same with any more fuel.

* `halts_expression`, `halts_statement`, `halts_declaration` — the productions that others and
  programs are made of.
* `halts_program` — a program over them.
-/

set_option autoImplicit false

namespace Cmm

namespace Grammar

open Parse

variable {n fuel fuel' : Nat}

/-! ## Expressions -/

theorem halts_chain {operand operand' : Parse Expr} (h : Halts n 0 operand operand') (tier : Tier)
    (hn : n ≤ fuel) (hfuel : fuel ≤ fuel') (left : Expr) :
    Halts n 0 (chain tier operand fuel left) (chain tier operand' fuel' left) := by
  induction fuel generalizing n fuel' left with
  | zero =>
      obtain rfl : n = 0 := by omega
      cases fuel' with
      | zero => exact .pure left
      | succ fuel' => exact .kindAtEnd (.pure left)
  | succ fuel ih =>
      obtain ⟨fuel', rfl⟩ : ∃ k, fuel' = k + 1 := ⟨fuel' - 1, by omega⟩
      have hless : Halts (n - 1) 0 operand operand' := h.mono (Nat.sub_le n 1)
      refine Halts.kind.bind fun k => ?_
      cases operatorOf tier k with
      | none => exact .pure left
      | some op =>
          refine Halts.advance.andThen fun _ => hless.holding.bind fun right => ?_
          exact ih hless (by omega) (by omega) (.binary op left right)

theorem halts_expressionOver {operand operand' : Parse Expr} (h : Halts n 0 operand operand')
    (hn : n ≤ fuel) (hfuel : fuel ≤ fuel') :
    Halts n 0 (expressionOver fuel operand) (expressionOver fuel' operand') := by
  unfold expressionOver
  induction Tier.all with
  | nil => exact h
  | cons tier rest ih => exact ih.bind fun left => halts_chain ih tier hn hfuel left

section

variable {expression expression' : Parse Expr} (h : Halts n 0 expression expression')

include h

theorem halts_arguments (hn : n ≤ fuel) (hfuel : fuel ≤ fuel') :
    Halts n 0 (Grammar.arguments fuel expression) (Grammar.arguments fuel' expression') := by
  refine Halts.expect.andThen fun _ => Halts.kind.bind fun k => ?_
  dsimp only
  split
  · exact (Halts.close []).loose
  · have hless : Halts (n - 1) 0 expression expression' := h.mono (Nat.sub_le n 1)
    exact (hless.commaSeparated _ (by omega) hfuel).bind fun args => (Halts.close args).loose

theorem halts_index : Halts n 0 (Grammar.index expression) (Grammar.index expression') :=
  h.bind fun i => (Halts.close i).loose

theorem halts_named (hn : n ≤ fuel) (hfuel : fuel ≤ fuel') (name : String) (span : Span) :
    Halts n 0 (named fuel expression name span) (named fuel' expression' name span) := by
  refine Halts.kind.bind fun k => ?_
  split
  · refine (halts_arguments h hn hfuel).bind fun args => ?_
    exact Halts.spanFrom.bind fun span => .pure _
  · refine .accept ?_ (.pure _)
    have hless : Halts (n - 1) 0 expression expression' := h.mono (Nat.sub_le n 1)
    exact (halts_index hless).bind fun i => Halts.spanFrom.bind fun span => .pure _

theorem halts_parenthesized (span : Span) :
    Halts n 0 (parenthesized expression span) (parenthesized expression' span) := by
  refine h.bind fun inner => Halts.expect.holding.andThen fun _ => ?_
  exact Halts.spanFrom.bind fun span => .pure _

end

theorem halts_operandOver {operand operand' : Parse Expr} (h : Halts (n - 1) 0 operand operand')
    (hn : n ≤ fuel + 1) (hfuel : fuel ≤ fuel') :
    Halts n 0 (operandOver fuel operand) (operandOver fuel' operand') := by
  have hexpression := halts_expressionOver h (by omega : n - 1 ≤ fuel) hfuel
  refine Halts.next.bind fun t => ?_
  obtain ⟨kind, text, span⟩ := t
  cases kind with
  | intLiteral | charLiteral | stringLiteral => exact Halts.advance.andThen fun _ => .pure _
  | identifier =>
      refine Halts.advance.andThen fun _ => ?_
      exact halts_named hexpression (by omega) hfuel text span
  | punct mark =>
      cases mark with
      | leftParen => exact Halts.advance.andThen fun _ => halts_parenthesized hexpression span
      | minus | bang => exact Halts.advance.andThen fun _ => h.bind fun inner => .pure _
      | plus | star | slash | less | greater | equal | equalEqual | bangEqual | lessEqual
      | greaterEqual | andAnd | orOr | comma | semicolon | rightParen | leftBrace | rightBrace
      | leftBracket | rightBracket => exact .fail
  | typeWord | keyword | endOfFile | invalid => exact .fail

/-- The end of a program is no operand, so no fuel is needed there. -/
theorem halts_operand (hn : n ≤ fuel) (hfuel : fuel ≤ fuel') :
    Halts n 0 (operand fuel) (operand fuel') := by
  induction fuel generalizing n fuel' with
  | zero =>
      obtain rfl : n = 0 := by omega
      cases fuel' with
      | zero => exact .fail
      | succ fuel' =>
          refine .nextAtEnd fun t ht => ?_
          rw [ht]
          exact .fail
  | succ fuel ih =>
      obtain ⟨fuel', rfl⟩ : ∃ k, fuel' = k + 1 := ⟨fuel' - 1, by omega⟩
      have hinner : Halts (n - 1) 0 (operand fuel) (operand fuel') := ih (by omega) (by omega)
      exact halts_operandOver hinner hn (by omega)

theorem halts_expression (hn : n ≤ fuel) (hfuel : fuel ≤ fuel') :
    Halts n 0 (expression fuel) (expression fuel') :=
  halts_expressionOver (halts_operand hn hfuel) hn hfuel

/-! ## Statements -/

theorem halts_optionalBefore {α : Type} {p q : Parse α} (h : Halts n 0 p q) (mark : Punct) :
    Halts n 0 (optionalBefore mark p) (optionalBefore mark q) := by
  refine Halts.kind.bind fun k => ?_
  split
  · exact .pure none
  · exact h.bind fun a => .pure (some a)

/-- The fuel has to suffice for the tokens behind the first name. -/
theorem halts_target (hn : n ≤ fuel + 1) (hfuel : fuel ≤ fuel') :
    Halts n 1 (target fuel) (target fuel') := by
  refine Halts.name.andThen fun _ => .accept ?_ (.pure _)
  have hexpression := halts_expression (by omega : n - 1 - 1 ≤ fuel) hfuel
  exact (halts_index hexpression).bind fun i => Halts.spanFrom.bind fun span => .pure _

theorem halts_assignment (hn : n ≤ fuel + 1) (hfuel : fuel ≤ fuel') :
    Halts n 1 (assignment fuel) (assignment fuel') := by
  refine (halts_target hn hfuel).andThen fun target => ?_
  have hexpression := halts_expression (by omega : n - 1 - 1 ≤ fuel) hfuel
  have hvalue : Halts (n - 1) 0 (do expect .equal .target; expression fuel)
      (do expect .equal .target; expression fuel') := Halts.expect.andThen fun _ => hexpression
  exact hvalue.holding.bind fun value => Halts.spanFrom.bind fun span => .pure _

theorem halts_condition (place : Place) (hn : n ≤ fuel) (hfuel : fuel ≤ fuel') :
    Halts n 0 (condition fuel place) (condition fuel' place) := by
  refine Halts.expect.andThen fun _ => ?_
  refine (halts_expression (by omega) hfuel).bind fun test => ?_
  exact (Halts.close test).loose

section

variable {statement statement' : Parse Stmt} (h : Halts n 1 statement statement')

include h

theorem halts_branch (hn : n ≤ fuel) (hfuel : fuel ≤ fuel') (span : Span) :
    Halts n 0 (branch fuel statement span) (branch fuel' statement' span) := by
  have hstatement : Halts n 0 statement statement' := h.loose
  refine (halts_condition _ hn hfuel).bind fun test => .holding ?_
  refine hstatement.bind fun thenPart => .accept ?_ ?_
  · have helse : Halts (n - 1) 0 (holding (looseStmt thenPart) statement)
        (holding (looseStmt thenPart) statement') := (hstatement.mono (Nat.sub_le n 1)).holding
    exact helse.bind fun elsePart => Halts.spanFrom.bind fun span => .pure _
  · exact Halts.spanFrom.bind fun span => .pure _

theorem halts_whileLoop (hn : n ≤ fuel) (hfuel : fuel ≤ fuel') (span : Span) :
    Halts n 0 (whileLoop fuel statement span) (whileLoop fuel' statement' span) := by
  have hstatement : Halts n 0 statement statement' := h.loose
  refine (halts_condition _ hn hfuel).bind fun test => ?_
  exact hstatement.holding.bind fun body => Halts.spanFrom.bind fun span => .pure _

theorem halts_forLoop (hn : n ≤ fuel) (hfuel : fuel ≤ fuel') (span : Span) :
    Halts n 0 (forLoop fuel statement span) (forLoop fuel' statement' span) := by
  have hassignment : Halts n 0 (assignment fuel) (assignment fuel') :=
    (halts_assignment (by omega) hfuel).loose
  have htest := halts_expression hn hfuel
  have hstatement : Halts n 0 statement statement' := h.loose
  -- Each of the four marks leaves one token less.
  have hexpect {m : Nat} {mark : Punct} {place : Place} :
      Halts m 0 (expect mark place) (expect mark place) := Halts.expect.loose
  refine hexpect.bind fun _ => (halts_optionalBefore hassignment _).bind fun start => ?_
  refine .holding (hexpect.bind fun _ => (halts_optionalBefore htest _).bind fun test => ?_)
  refine .holding (hexpect.bind fun _ => ?_)
  refine (halts_optionalBefore hassignment _).bind fun update => ?_
  refine .holding (hexpect.bind fun _ => hstatement.bind fun body => ?_)
  exact Halts.spanFrom.bind fun span => .pure _

theorem halts_statements (hn : n ≤ fuel) (hfuel : fuel ≤ fuel') :
    Halts n 0 (statements statement fuel) (statements statement' fuel') := by
  induction fuel generalizing n fuel' with
  | zero =>
      obtain rfl : n = 0 := by omega
      cases fuel' with
      | zero => exact .pure []
      | succ fuel' =>
          refine .kindAtEnd ?_
          rw [if_pos (.inr rfl)]
          exact .pure []
  | succ fuel ih =>
      obtain ⟨fuel', rfl⟩ : ∃ k, fuel' = k + 1 := ⟨fuel' - 1, by omega⟩
      have hless : Halts (n - 1) 1 statement statement' := h.mono (Nat.sub_le n 1)
      refine Halts.kind.bind fun k => ?_
      split
      · exact .pure []
      · refine h.andThen fun s => ?_
        exact (ih hless (by omega) (by omega)).holding.bind fun rest => .pure (s :: rest)

theorem halts_block (hn : n ≤ fuel) (hfuel : fuel ≤ fuel') :
    Halts n 0 (block fuel statement) (block fuel' statement') := by
  refine (halts_statements h hn hfuel).bind fun body => ?_
  exact (Halts.close (Stmt.block body)).loose

end

theorem halts_ret (hn : n ≤ fuel) (hfuel : fuel ≤ fuel') (span : Span) :
    Halts n 0 (ret fuel span) (ret fuel' span) := by
  have hvalue := halts_optionalBefore (halts_expression hn hfuel) .semicolon
  refine hvalue.bind fun value => Halts.expect.holding.andThen fun _ => ?_
  exact Halts.spanFrom.bind fun span => .pure _

theorem halts_callStatement (hn : n ≤ fuel + 1) (hfuel : fuel ≤ fuel') :
    Halts n 1 (callStatement fuel) (callStatement fuel') := by
  refine Halts.name.andThen fun callee => ?_
  have hexpression := halts_expression (by omega : n - 1 ≤ fuel) hfuel
  refine (halts_arguments hexpression (by omega) hfuel).bind fun args => ?_
  refine Halts.spanFrom.bind fun span => ?_
  exact (Halts.close (Stmt.call callee.1 args span)).loose

theorem halts_assignStatement (hn : n ≤ fuel + 1) (hfuel : fuel ≤ fuel') :
    Halts n 1 (assignStatement fuel) (assignStatement fuel') := by
  refine (halts_assignment hn hfuel).andThen fun a => ?_
  exact (Halts.close (Stmt.assign a)).loose

theorem halts_statementOver {statement statement' : Parse Stmt}
    (h : Halts (n - 1) 1 statement statement') (hn : n ≤ fuel + 1) (hfuel : fuel ≤ fuel') :
    Halts n 1 (statementOver fuel statement) (statementOver fuel' statement') := by
  have hless : n - 1 ≤ fuel := by omega
  refine Halts.next.bind fun t => ?_
  obtain ⟨kind, text, span⟩ := t
  cases kind with
  | keyword word =>
      cases word with
      | ifWord => exact Halts.advance.andThen fun _ => halts_branch h hless hfuel span
      | whileWord => exact Halts.advance.andThen fun _ => halts_whileLoop h hless hfuel span
      | forWord => exact Halts.advance.andThen fun _ => halts_forLoop h hless hfuel span
      | returnWord => exact Halts.advance.andThen fun _ => halts_ret hless hfuel span
      | elseWord | external => exact .fail
  | punct mark =>
      cases mark with
      | leftBrace => exact Halts.advance.andThen fun _ => halts_block h hless hfuel
      | semicolon => exact Halts.advance.andThen fun _ => .pure Stmt.empty
      | plus | minus | star | slash | less | greater | bang | equal | equalEqual | bangEqual
      | lessEqual | greaterEqual | andAnd | orOr | comma | leftParen | rightParen | rightBrace
      | leftBracket | rightBracket => exact .fail
  | identifier =>
      refine Halts.kindBehind.bind fun k => ?_
      split
      · exact halts_callStatement hn hfuel
      · exact halts_assignStatement hn hfuel
  | intLiteral | charLiteral | stringLiteral | typeWord | endOfFile | invalid => exact .fail

theorem halts_statement (hn : n ≤ fuel) (hfuel : fuel ≤ fuel') :
    Halts n 1 (statement fuel) (statement fuel') := by
  induction fuel generalizing n fuel' with
  | zero =>
      obtain rfl : n = 0 := by omega
      cases fuel' with
      | zero => exact .fail
      | succ fuel' =>
          refine .nextAtEnd fun t ht => ?_
          rw [ht]
          exact .fail
  | succ fuel ih =>
      obtain ⟨fuel', rfl⟩ : ∃ k, fuel' = k + 1 := ⟨fuel' - 1, by omega⟩
      have hinner : Halts (n - 1) 1 (statement fuel) (statement fuel') := ih (by omega) (by omega)
      exact halts_statementOver hinner hn (by omega)

/-! ## Declarations -/

theorem halts_typeWord : Halts n 1 typeWord typeWord := by
  refine Halts.kind.bind fun k => ?_
  split
  · exact Halts.advance.andThen fun _ => .pure _
  · exact .fail

theorem halts_declarator (name : String) (span : Span) :
    Halts n 0 (declarator name span) (declarator name span) := by
  refine .accept ?_ (.pure _)
  refine Halts.require.andThen fun size => Halts.expect.andThen fun _ => ?_
  exact Halts.spanFrom.bind fun span => .pure _

theorem halts_declarators (hn : n ≤ fuel) (hfuel : fuel ≤ fuel') (name : String) (span : Span) :
    Halts n 0 (declarators fuel name span) (declarators fuel' name span) := by
  have hanother : Halts (n - 1) 0 (Parse.name .object >>= fun x => declarator x.1 x.2)
      (Parse.name .object >>= fun x => declarator x.1 x.2) :=
    Halts.name.andThen fun x => halts_declarator x.1 x.2
  refine (halts_declarator name span).bind fun first => ?_
  refine .bind (.holding (.accept ?_ (.pure []))) fun others => (Halts.close _).loose
  exact hanother.commaSeparated _ (by omega) hfuel

theorem halts_param : Halts n 0 param param := by
  refine halts_typeWord.andThen fun spec => Halts.name.andThen fun name => ?_
  exact .accept (Halts.expect.andThen fun _ => .pure _) (.pure _)

theorem halts_parameters (hn : n ≤ fuel + 1) (hfuel : fuel ≤ fuel') :
    Halts n 0 (parameters fuel) (parameters fuel') := by
  have hclose {m : Nat} (params : List Param) :
      Halts m 0 (do expect .rightParen .parameters; return params)
        (do expect .rightParen .parameters; return params) :=
    Halts.expect.andThen fun _ => .pure params
  refine Halts.expect.andThen fun _ => Halts.kind.bind fun k => Halts.kindBehind.bind fun k' => ?_
  dsimp only
  split
  · exact Halts.advance.andThen fun _ => hclose []
  · split
    · exact hclose []
    · exact (halts_param.commaSeparated _ (by omega) hfuel).bind hclose

theorem halts_prototype (hn : n ≤ fuel + 2) (hfuel : fuel ≤ fuel') :
    Halts n 0 (prototype fuel) (prototype fuel') := by
  refine Halts.name.andThen fun name => ?_
  exact (halts_parameters (by omega : n - 1 ≤ fuel + 1) hfuel).bind fun params => .pure _

theorem halts_prototypes (hn : n ≤ fuel) (hfuel : fuel ≤ fuel') :
    Halts n 0 (prototypes fuel) (prototypes fuel') := by
  refine Halts.found.bind fun more => ?_
  dsimp only
  split
  · have hothers := (halts_prototype (by omega : n ≤ fuel + 2) hfuel).commaSeparated
      (fun items => items) hn hfuel
    exact (hothers.map List.flatten).bind fun others => (Halts.close _).loose
  · exact (Halts.close _).loose

theorem halts_locals {bound bound' : Nat} (hbound : n ≤ bound) (hbounds : bound ≤ bound')
    (hn : n ≤ fuel) (hfuel : fuel ≤ fuel') :
    Halts n 0 (locals bound fuel) (locals bound' fuel') := by
  induction fuel generalizing n fuel' with
  | zero =>
      obtain rfl : n = 0 := by omega
      cases fuel' with
      | zero => exact .pure []
      | succ fuel' => exact .kindAtEnd (.pure [])
  | succ fuel ih =>
      obtain ⟨fuel', rfl⟩ : ∃ k, fuel' = k + 1 := ⟨fuel' - 1, by omega⟩
      refine Halts.kind.bind fun k => ?_
      split
      · refine halts_typeWord.andThen fun spec => Halts.name.andThen fun name => ?_
        have hdeclared := halts_declarators (by omega : n - 1 - 1 ≤ bound) hbounds name.1 name.2
        have hrest : Halts (n - 1 - 1) 0 (locals bound fuel) (locals bound' fuel') :=
          ih (by omega) (by omega) (by omega)
        exact hdeclared.holding.bind fun declared => hrest.holding.bind fun rest => .pure _
      · exact .pure []

theorem halts_functionBody (hn : n ≤ fuel) (hfuel : fuel ≤ fuel') :
    Halts n 0 (functionBody fuel) (functionBody fuel') := by
  have hless : n - 1 ≤ fuel := by omega
  refine Halts.expect.andThen fun _ => ?_
  refine (halts_locals hless hfuel hless hfuel).bind fun declared => .holding ?_
  have hbody := halts_statements (halts_statement hless hfuel) hless hfuel
  exact hbody.bind fun body => Halts.next.bind fun closing => (Halts.close _).loose

theorem halts_afterHeader (hn : n ≤ fuel) (hfuel : fuel ≤ fuel') (isExtern : Bool) (header : Item) :
    Halts n 0 (afterHeader fuel isExtern header) (afterHeader fuel' isExtern header) := by
  refine Halts.kind.bind fun k => ?_
  split
  · exact (halts_functionBody hn hfuel).holding.bind fun rest => .pure _
  · exact (halts_prototypes hn hfuel).holding.bind fun rest => .pure _

theorem halts_declaration (hn : n ≤ fuel) (hfuel : fuel ≤ fuel') :
    Halts n 1 (declaration fuel) (declaration fuel') := by
  refine Halts.found.bind fun isExtern => halts_typeWord.andThen fun spec => ?_
  refine Halts.name.andThen fun name => .holding (Halts.kind.bind fun k => ?_)
  split
  · refine (halts_parameters (by omega : n - 1 - 1 ≤ fuel + 1) hfuel).bind fun params => ?_
    exact (halts_afterHeader (by omega) hfuel isExtern _).bind fun items => .pure _
  · split
    · exact .fail
    · exact (halts_declarators (by omega) hfuel name.1 name.2).bind fun items => .pure _

theorem halts_program {bound bound' : Nat} (hbound : n ≤ bound) (hbounds : bound ≤ bound')
    (hn : n ≤ fuel) (hfuel : fuel ≤ fuel') :
    Halts n 0 (program bound fuel) (program bound' fuel') := by
  induction fuel generalizing n fuel' with
  | zero =>
      obtain rfl : n = 0 := by omega
      cases fuel' with
      | zero => exact .pure []
      | succ fuel' => exact .kindAtEnd (.pure [])
  | succ fuel ih =>
      obtain ⟨fuel', rfl⟩ : ∃ k, fuel' = k + 1 := ⟨fuel' - 1, by omega⟩
      refine Halts.kind.bind fun k => ?_
      split
      · exact .pure []
      · refine (halts_declaration hbound hbounds).andThen fun items => ?_
        have hrest : Halts (n - 1) 0 (program bound fuel) (program bound' fuel') :=
          ih (by omega) (by omega) (by omega)
        exact hrest.holding.bind fun rest => .pure _

end Grammar

end Cmm
