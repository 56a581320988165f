import Cmm.Grammar.Program
import Cmm.Proofs.Prefix.Persists

/-!
# Productions with more tokens behind

What a production reads short of the end it reads again where more tokens follow, one lemma per
production. Where more tokens follow there is more fuel too, so each lemma is about one production
with two fuels; that of the first parser suffices for the tokens that are left to it.

* `persists_expression`, `persists_statement` — what may go on behind its last token.
* `closes_declarators`, `closes_functionBody`, `closes_declaration` — what ends with a mark of its
  own: no token behind it is ever looked at.
-/

set_option autoImplicit false

namespace Cmm

namespace Grammar

open Parse

variable {n fuel fuel' : Nat}

/-! ## Expressions -/

theorem persists_chain {operand operand' : Parse Expr} (h : Persists n 0 operand operand')
    (tier : Tier) (hn : n ≤ fuel) (hfuel : fuel ≤ fuel') (left : Expr) :
    Persists n 0 (chain tier operand fuel left) (chain tier operand' fuel' left) := by
  induction fuel generalizing n fuel' left with
  | zero =>
      obtain rfl : n = 0 := by omega
      have hleft : Persists 0 0 (chain tier operand 0 left) (chain tier operand' 0 left) :=
        .pure left
      exact hleft.atEnd _
  | succ fuel ih =>
      obtain ⟨fuel', rfl⟩ : ∃ k, fuel' = k + 1 := ⟨fuel' - 1, by omega⟩
      have hless : Persists (n - 1) 0 operand operand' := h.mono (Nat.sub_le n 1)
      refine Persists.kind.bind fun k => ?_
      cases operatorOf tier k with
      | none => exact .pure left
      | some op =>
          refine Persists.advance.andThen fun _ => hless.holding.bind fun right => ?_
          exact ih hless (by omega) (by omega) (.binary op left right)

theorem persists_expressionOver {operand operand' : Parse Expr} (h : Persists n 0 operand operand')
    (hn : n ≤ fuel) (hfuel : fuel ≤ fuel') :
    Persists n 0 (expressionOver fuel operand) (expressionOver fuel' operand') := by
  unfold expressionOver
  induction Tier.all with
  | nil => exact h
  | cons tier rest ih => exact ih.bind fun left => persists_chain ih tier hn hfuel left

section

variable {expression expression' : Parse Expr} (h : Persists n 0 expression expression')

include h

theorem persists_arguments (hn : n ≤ fuel) (hfuel : fuel ≤ fuel') :
    Persists n 0 (Grammar.arguments fuel expression) (Grammar.arguments fuel' expression') := by
  have hclose (args : List Expr) : Persists (n - 1) 0
      (do holding (args.flatMap looseExpr) (expect .rightParen .arguments); return args)
      (do holding (args.flatMap looseExpr) (expect .rightParen .arguments); return args) :=
    (Closes.close args).persists.loose
  refine Persists.expect.andThen fun _ => Persists.kind.bind fun k => ?_
  dsimp only
  split
  · exact hclose []
  · have hless : Persists (n - 1) 0 expression expression' := h.mono (Nat.sub_le n 1)
    exact (hless.commaSeparated _ _ (by omega) hfuel).bind hclose

theorem persists_index : Persists n 0 (Grammar.index expression) (Grammar.index expression') :=
  h.bind fun i => (Closes.close i).persists.loose

theorem persists_named (hn : n ≤ fuel) (hfuel : fuel ≤ fuel') (name : String) (span : Span) :
    Persists n 0 (named fuel expression name span) (named fuel' expression' name span) := by
  refine Persists.kind.bind fun k => ?_
  split
  · refine (persists_arguments h hn hfuel).bind fun args => ?_
    exact Persists.spanFrom.bind fun span => .pure _
  · refine .accept ?_ (.pure _)
    have hless : Persists (n - 1) 0 expression expression' := h.mono (Nat.sub_le n 1)
    exact (persists_index hless).bind fun i => Persists.spanFrom.bind fun span => .pure _

theorem persists_parenthesized (span : Span) :
    Persists n 0 (parenthesized expression span) (parenthesized expression' span) := by
  refine h.bind fun inner => Persists.expect.holding.andThen fun _ => ?_
  exact Persists.spanFrom.bind fun span => .pure _

end

theorem persists_operandOver {operand operand' : Parse Expr}
    (h : Persists (n - 1) 0 operand operand') (hn : n ≤ fuel + 1) (hfuel : fuel ≤ fuel') :
    Persists n 0 (operandOver fuel operand) (operandOver fuel' operand') := by
  have hexpression := persists_expressionOver h (by omega : n - 1 ≤ fuel) hfuel
  refine Persists.next.bind fun t => ?_
  obtain ⟨kind, text, span⟩ := t
  cases kind with
  | intLiteral | charLiteral | stringLiteral => exact Persists.advance.andThen fun _ => .pure _
  | identifier =>
      refine Persists.advance.andThen fun _ => ?_
      exact persists_named hexpression (by omega) hfuel text span
  | punct mark =>
      cases mark with
      | leftParen => exact Persists.advance.andThen fun _ => persists_parenthesized hexpression span
      | minus | bang => exact Persists.advance.andThen fun _ => h.bind fun inner => .pure _
      | plus | star | slash | less | greater | equal | equalEqual | bangEqual | lessEqual
      | greaterEqual | andAnd | orOr | comma | semicolon | rightParen | leftBrace | rightBrace
      | leftBracket | rightBracket => exact .fail
  | typeWord | keyword | endOfFile | invalid => exact .fail

theorem persists_operand (hn : n ≤ fuel) (hfuel : fuel ≤ fuel') :
    Persists n 0 (operand fuel) (operand fuel') := by
  induction fuel generalizing n fuel' with
  | zero => exact .fail
  | succ fuel ih =>
      obtain ⟨fuel', rfl⟩ : ∃ k, fuel' = k + 1 := ⟨fuel' - 1, by omega⟩
      have hinner : Persists (n - 1) 0 (operand fuel) (operand fuel') := ih (by omega) (by omega)
      exact persists_operandOver hinner hn (by omega)

theorem persists_expression (hn : n ≤ fuel) (hfuel : fuel ≤ fuel') :
    Persists n 0 (expression fuel) (expression fuel') :=
  persists_expressionOver (persists_operand hn hfuel) hn hfuel

/-! ## Statements -/

theorem persists_optionalBefore {α : Type} {p q : Parse α} (h : Persists n 0 p q) (mark : Punct) :
    Persists n 0 (optionalBefore mark p) (optionalBefore mark q) := by
  refine Persists.kind.bind fun k => ?_
  split
  · exact .pure none
  · exact h.bind fun a => .pure (some a)

/-- The fuel has to suffice for the tokens behind the first name. -/
theorem persists_target (hn : n ≤ fuel + 1) (hfuel : fuel ≤ fuel') :
    Persists n 1 (target fuel) (target fuel') := by
  refine Persists.name.andThen fun _ => .accept ?_ (.pure _)
  have hexpression := persists_expression (by omega : n - 1 - 1 ≤ fuel) hfuel
  exact (persists_index hexpression).bind fun i => Persists.spanFrom.bind fun span => .pure _

theorem persists_assignment (hn : n ≤ fuel + 1) (hfuel : fuel ≤ fuel') :
    Persists n 1 (assignment fuel) (assignment fuel') := by
  refine (persists_target hn hfuel).andThen fun target => ?_
  have hexpression := persists_expression (by omega : n - 1 - 1 ≤ fuel) hfuel
  have hvalue : Persists (n - 1) 0 (do expect .equal .target; expression fuel)
      (do expect .equal .target; expression fuel') := Persists.expect.andThen fun _ => hexpression
  exact hvalue.holding.bind fun value => Persists.spanFrom.bind fun span => .pure _

theorem persists_condition (place : Place) (hn : n ≤ fuel) (hfuel : fuel ≤ fuel') :
    Persists n 0 (condition fuel place) (condition fuel' place) := by
  refine Persists.expect.andThen fun _ => ?_
  refine (persists_expression (by omega) hfuel).bind fun test => ?_
  exact (Closes.close test).persists.loose

section

variable {statement statement' : Parse Stmt} (h : Persists n 1 statement statement')

include h

theorem persists_branch (hn : n ≤ fuel) (hfuel : fuel ≤ fuel') (span : Span) :
    Persists n 0 (branch fuel statement span) (branch fuel' statement' span) := by
  have hstatement : Persists n 0 statement statement' := h.loose
  refine (persists_condition _ hn hfuel).bind fun test => .holding ?_
  refine hstatement.bind fun thenPart => .accept ?_ ?_
  · have helse : Persists (n - 1) 0 (holding (looseStmt thenPart) statement)
        (holding (looseStmt thenPart) statement') := (hstatement.mono (Nat.sub_le n 1)).holding
    exact helse.bind fun elsePart => Persists.spanFrom.bind fun span => .pure _
  · exact Persists.spanFrom.bind fun span => .pure _

theorem persists_whileLoop (hn : n ≤ fuel) (hfuel : fuel ≤ fuel') (span : Span) :
    Persists n 0 (whileLoop fuel statement span) (whileLoop fuel' statement' span) := by
  have hstatement : Persists n 0 statement statement' := h.loose
  refine (persists_condition _ hn hfuel).bind fun test => ?_
  exact hstatement.holding.bind fun body => Persists.spanFrom.bind fun span => .pure _

theorem persists_forLoop (hn : n ≤ fuel) (hfuel : fuel ≤ fuel') (span : Span) :
    Persists n 0 (forLoop fuel statement span) (forLoop fuel' statement' span) := by
  have hassignment : Persists n 0 (assignment fuel) (assignment fuel') :=
    (persists_assignment (by omega) hfuel).loose
  have htest := persists_expression hn hfuel
  have hstatement : Persists n 0 statement statement' := h.loose
  -- Each of the four marks leaves one token less.
  have hexpect {m : Nat} {mark : Punct} {place : Place} :
      Persists m 0 (expect mark place) (expect mark place) := Persists.expect.loose
  refine hexpect.bind fun _ => (persists_optionalBefore hassignment _).bind fun start => ?_
  refine .holding (hexpect.bind fun _ => (persists_optionalBefore htest _).bind fun test => ?_)
  refine .holding (hexpect.bind fun _ => ?_)
  refine (persists_optionalBefore hassignment _).bind fun update => ?_
  refine .holding (hexpect.bind fun _ => hstatement.bind fun body => ?_)
  exact Persists.spanFrom.bind fun span => .pure _

theorem persists_statements (hn : n ≤ fuel) (hfuel : fuel ≤ fuel') :
    Persists n 0 (statements statement fuel) (statements statement' fuel') := by
  induction fuel generalizing n fuel' with
  | zero =>
      obtain rfl : n = 0 := by omega
      have hnone : Persists 0 0 (statements statement 0) (statements statement' 0) := .pure []
      exact hnone.atEnd _
  | succ fuel ih =>
      obtain ⟨fuel', rfl⟩ : ∃ k, fuel' = k + 1 := ⟨fuel' - 1, by omega⟩
      have hless : Persists (n - 1) 1 statement statement' := h.mono (Nat.sub_le n 1)
      refine Persists.kind.bind fun k => ?_
      split
      · exact .pure []
      · refine h.andThen fun s => ?_
        exact (ih hless (by omega) (by omega)).holding.bind fun rest => .pure (s :: rest)

theorem persists_block (hn : n ≤ fuel) (hfuel : fuel ≤ fuel') :
    Persists n 0 (block fuel statement) (block fuel' statement') := by
  refine (persists_statements h hn hfuel).bind fun body => ?_
  exact (Closes.close (Stmt.block body)).persists.loose

end

theorem persists_ret (hn : n ≤ fuel) (hfuel : fuel ≤ fuel') (span : Span) :
    Persists n 0 (ret fuel span) (ret fuel' span) := by
  have hvalue := persists_optionalBefore (persists_expression hn hfuel) .semicolon
  refine hvalue.bind fun value => Persists.expect.holding.andThen fun _ => ?_
  exact Persists.spanFrom.bind fun span => .pure _

theorem persists_callStatement (hn : n ≤ fuel + 1) (hfuel : fuel ≤ fuel') :
    Persists n 1 (callStatement fuel) (callStatement fuel') := by
  refine Persists.name.andThen fun callee => ?_
  have hexpression := persists_expression (by omega : n - 1 ≤ fuel) hfuel
  refine (persists_arguments hexpression (by omega) hfuel).bind fun args => ?_
  refine Persists.spanFrom.bind fun span => ?_
  exact (Closes.close (Stmt.call callee.1 args span)).persists.loose

theorem persists_assignStatement (hn : n ≤ fuel + 1) (hfuel : fuel ≤ fuel') :
    Persists n 1 (assignStatement fuel) (assignStatement fuel') := by
  refine (persists_assignment hn hfuel).andThen fun a => ?_
  exact (Closes.close (Stmt.assign a)).persists.loose

theorem persists_statementOver {statement statement' : Parse Stmt}
    (h : Persists (n - 1) 1 statement statement') (hn : n ≤ fuel + 1) (hfuel : fuel ≤ fuel') :
    Persists n 1 (statementOver fuel statement) (statementOver fuel' statement') := by
  have hless : n - 1 ≤ fuel := by omega
  refine Persists.next.bind fun t => ?_
  obtain ⟨kind, text, span⟩ := t
  cases kind with
  | keyword word =>
      cases word with
      | ifWord => exact Persists.advance.andThen fun _ => persists_branch h hless hfuel span
      | whileWord => exact Persists.advance.andThen fun _ => persists_whileLoop h hless hfuel span
      | forWord => exact Persists.advance.andThen fun _ => persists_forLoop h hless hfuel span
      | returnWord => exact Persists.advance.andThen fun _ => persists_ret hless hfuel span
      | elseWord | external => exact .fail
  | punct mark =>
      cases mark with
      | leftBrace => exact Persists.advance.andThen fun _ => persists_block h hless hfuel
      | semicolon => exact Persists.advance.andThen fun _ => .pure Stmt.empty
      | plus | minus | star | slash | less | greater | bang | equal | equalEqual | bangEqual
      | lessEqual | greaterEqual | andAnd | orOr | comma | leftParen | rightParen | rightBrace
      | leftBracket | rightBracket => exact .fail
  | identifier =>
      -- Either statement reads the name, so the look behind it matters only short of the end.
      refine .kindBehind fun k => ?_
      split
      · exact persists_callStatement hn hfuel
      · exact persists_assignStatement hn hfuel
  | intLiteral | charLiteral | stringLiteral | typeWord | endOfFile | invalid => exact .fail

theorem persists_statement (hn : n ≤ fuel) (hfuel : fuel ≤ fuel') :
    Persists n 1 (statement fuel) (statement fuel') := by
  induction fuel generalizing n fuel' with
  | zero => exact .fail
  | succ fuel ih =>
      obtain ⟨fuel', rfl⟩ : ∃ k, fuel' = k + 1 := ⟨fuel' - 1, by omega⟩
      have hinner : Persists (n - 1) 1 (statement fuel) (statement fuel') :=
        ih (by omega) (by omega)
      exact persists_statementOver hinner hn (by omega)

/-! ## Declarations -/

theorem persists_typeWord : Persists n 1 typeWord typeWord := by
  refine Persists.kind.bind fun k => ?_
  split
  · exact Persists.advance.andThen fun _ => .pure _
  · exact .fail

theorem persists_declarator (name : String) (span : Span) :
    Persists n 0 (declarator name span) (declarator name span) := by
  refine .accept ?_ (.pure _)
  refine Persists.require.andThen fun size => Persists.expect.andThen fun _ => ?_
  exact Persists.spanFrom.bind fun span => .pure _

theorem closes_declarators (hn : n ≤ fuel) (hfuel : fuel ≤ fuel') (name : String) (span : Span) :
    Closes n (declarators fuel name span) (declarators fuel' name span) := by
  have hanother : Persists (n - 1) 0 (Parse.name .object >>= fun x => declarator x.1 x.2)
      (Parse.name .object >>= fun x => declarator x.1 x.2) :=
    Persists.name.andThen fun x => persists_declarator x.1 x.2
  refine Closes.after (persists_declarator name span) fun first => ?_
  refine Closes.after (d := 0) (.holding (.accept ?_ (.pure []))) fun others => .close _
  exact hanother.commaSeparated _ _ (by omega) hfuel

theorem persists_param : Persists n 0 param param := by
  refine persists_typeWord.andThen fun spec => Persists.name.andThen fun name => ?_
  exact .accept (Persists.expect.andThen fun _ => .pure _) (.pure _)

/-- A parameter has a name behind its type word. -/
theorem length_of_reads_param {items : Param → List Item} {c c' : Cursor} {params : List Param}
    (hstop : c.stop.kind = .endOfFile)
    (hread : Reads (commaSeparated param items fuel) c params c') : 1 < c.rest.length := by
  have hparam : ∃ p c₁, Reads param c p c₁ := by
    cases fuel with
    | zero | succ fuel =>
        obtain ⟨p, c₁, hp, -⟩ := reads_bind.1 hread
        exact ⟨p, c₁, hp⟩
  obtain ⟨p, c₁, hp⟩ := hparam
  obtain ⟨spec, c₂, hspec, hp⟩ := reads_bind.1 hp
  obtain ⟨hless, hend, -⟩ := persists_typeWord c spec c₂ hstop (Nat.le_refl _) hspec
  obtain ⟨_, c₃, hname, -⟩ := reads_bind.1 hp
  have hkind : c₂.next.kind = .identifier := (reads_name.1 hname).1
  have hrest := (Cursor.rest_eq (by rw [hend, hstop]) (by rw [hkind]; simp)).1
  have hpos : 0 < c₂.rest.length := by
    rw [hrest]
    exact Nat.succ_pos _
  omega

/-- What stands behind a closing parenthesis has no part in the parameters. -/
theorem closes_parameters (hn : n ≤ fuel + 1) (hfuel : fuel ≤ fuel') :
    Closes n (parameters fuel) (parameters fuel') := by
  have hclose {m : Nat} (params : List Param) :
      Closes m (do expect .rightParen .parameters; return params)
        (do expect .rightParen .parameters; return params) :=
    Closes.expect.andReturn fun _ => params
  refine Closes.after Persists.expect fun _ => ?_
  intro c params c' hstop hlen hr
  obtain ⟨k, here, hk, hr⟩ := reads_bind.1 hr
  obtain ⟨rfl, rfl⟩ := reads_kind.1 hk
  obtain ⟨k', here, hk', hr⟩ := reads_bind.1 hr
  obtain ⟨rfl, rfl⟩ := reads_kindBehind.1 hk'
  dsimp only at hr
  split at hr
  · rename_i hvoid
    have htwo : 1 < here.rest.length := Cursor.length_of_kindBehind (by simp [hvoid.2])
    obtain ⟨hless, hend, hagain⟩ := (Closes.after (d := 1) Persists.advance
      fun _ => hclose []) here params c' hstop hlen hr
    refine ⟨hless, hend, fun more stop => ?_⟩
    refine .bind (reads_kind.2 ⟨rfl, rfl⟩) (.bind (reads_kindBehind.2 ⟨rfl, rfl⟩) ?_)
    rw [Cursor.next_extend (by omega), Cursor.kindBehind_extend htwo, if_pos hvoid]
    exact hagain more stop
  · rename_i hvoid
    split at hr
    · rename_i hparen
      obtain ⟨hless, hend, hagain⟩ := hclose [] here params c' hstop hlen hr
      refine ⟨hless, hend, fun more stop => ?_⟩
      refine .bind (reads_kind.2 ⟨rfl, rfl⟩) (.bind (reads_kindBehind.2 ⟨rfl, rfl⟩) ?_)
      rw [Cursor.next_extend (by omega), if_neg (by simp [hparen]), if_pos hparen]
      exact hagain more stop
    · rename_i hparen
      obtain ⟨_, _, hparams, -⟩ := reads_bind.1 hr
      have htwo := length_of_reads_param hstop hparams
      have hlist := persists_param.commaSeparated (fun _ => []) (fun _ => [])
        (by omega : n - 1 ≤ fuel) hfuel
      obtain ⟨hless, hend, hagain⟩ := (Closes.after hlist hclose) here params c' hstop hlen hr
      refine ⟨hless, hend, fun more stop => ?_⟩
      refine .bind (reads_kind.2 ⟨rfl, rfl⟩) (.bind (reads_kindBehind.2 ⟨rfl, rfl⟩) ?_)
      rw [Cursor.next_extend (by omega), Cursor.kindBehind_extend htwo, if_neg hvoid,
        if_neg hparen]
      exact hagain more stop

theorem persists_prototype (hn : n ≤ fuel + 2) (hfuel : fuel ≤ fuel') :
    Persists n 0 (prototype fuel) (prototype fuel') := by
  refine Persists.name.andThen fun name => ?_
  have hparams := (closes_parameters (by omega : n - 1 ≤ fuel + 1) hfuel).persists.loose
  exact hparams.bind fun params => .pure _

theorem closes_prototypes (hn : n ≤ fuel) (hfuel : fuel ≤ fuel') :
    Closes n (prototypes fuel) (prototypes fuel') := by
  have hclose (others : List Item) : Closes n
      (do holding others (expect .semicolon .prototype); return others ++ [.endPrototypes])
      (do holding others (expect .semicolon .prototype); return others ++ [.endPrototypes]) :=
    .close _
  refine Closes.after Persists.found fun more => ?_
  dsimp only
  split
  · have hothers := (persists_prototype (by omega : n ≤ fuel + 2) hfuel).commaSeparated
      (fun items => items) (fun items => items) hn hfuel
    exact Closes.after (hothers.map List.flatten) hclose
  · exact hclose []

theorem persists_locals {bound bound' : Nat} (hbound : n ≤ bound) (hbounds : bound ≤ bound')
    (hn : n ≤ fuel) (hfuel : fuel ≤ fuel') :
    Persists n 0 (locals bound fuel) (locals bound' fuel') := by
  induction fuel generalizing n fuel' with
  | zero =>
      obtain rfl : n = 0 := by omega
      have hnone : Persists 0 0 (locals bound 0) (locals bound' 0) := .pure []
      exact hnone.atEnd _
  | succ fuel ih =>
      obtain ⟨fuel', rfl⟩ : ∃ k, fuel' = k + 1 := ⟨fuel' - 1, by omega⟩
      refine Persists.kind.bind fun k => ?_
      split
      · refine persists_typeWord.andThen fun spec => Persists.name.andThen fun name => ?_
        have hdeclared := closes_declarators (by omega : n - 1 - 1 ≤ bound) hbounds name.1 name.2
        have hrest : Persists (n - 1 - 1) 0 (locals bound fuel) (locals bound' fuel') :=
          ih (by omega) (by omega) (by omega)
        refine hdeclared.persists.loose.holding.bind fun declared => ?_
        exact hrest.holding.bind fun rest => .pure _
      · exact .pure []

theorem closes_functionBody (hn : n ≤ fuel) (hfuel : fuel ≤ fuel') :
    Closes n (functionBody fuel) (functionBody fuel') := by
  have hless : n - 1 ≤ fuel := by omega
  refine Closes.after Persists.expect fun _ => ?_
  refine Closes.after (persists_locals hless hfuel hless hfuel) fun declared => .holding ?_
  have hbody := persists_statements (persists_statement hless hfuel) hless hfuel
  exact Closes.after hbody fun body => Closes.after Persists.next fun closing => .close _

theorem closes_afterHeader (hn : n ≤ fuel) (hfuel : fuel ≤ fuel') (isExtern : Bool)
    (header : Item) :
    Closes n (afterHeader fuel isExtern header) (afterHeader fuel' isExtern header) := by
  refine Closes.after Persists.kind fun k => ?_
  split
  · exact (closes_functionBody hn hfuel).holding.andReturn _
  · exact (closes_prototypes hn hfuel).holding.andReturn _

/-- **No token behind a declaration has a part in it.** -/
theorem closes_declaration (hn : n ≤ fuel) (hfuel : fuel ≤ fuel') :
    Closes n (declaration fuel) (declaration fuel') := by
  refine Closes.after Persists.found fun isExtern => ?_
  refine Closes.after persists_typeWord fun spec => Closes.after Persists.name fun name => ?_
  have hless : n - 0 - 1 - 1 ≤ fuel := by omega
  refine .holding (Closes.after Persists.kind fun k => ?_)
  split
  · have hparams := (closes_parameters (by omega : n - 0 - 1 - 1 ≤ fuel + 1) hfuel).persists.loose
    refine Closes.after hparams fun params => ?_
    exact (closes_afterHeader hless hfuel isExtern _).andReturn _
  · split
    · exact .fail
    · exact (closes_declarators hless hfuel name.1 name.2).andReturn _

end Grammar

end Cmm
