import Cmm.Grammar.Program
import Cmm.Proofs.Parse
import Cmm.Proofs.Relabel.Phrases

/-!
# Reading under other names and places

* `Parse.Follows` — a parser does with changed tokens what another one does with the tokens
  themselves: it reads the changed phrase, or is interrupted with the changed items. One lemma per
  combinator, and one per production of the grammar.
* `Reading.ofTokens_map` — a program of changed tokens is read as the changed program. So no
  decision of the grammar looks at a name or a place.
-/

set_option autoImplicit false

namespace Cmm

namespace Parse

variable {α β α' β' : Type} {r : Relabel}

/-- What an outcome becomes where names and places change. -/
def Relabeled (r : Relabel) (F : α → α') :
    Except Interruption (α × Cursor) → Except Interruption (α' × Cursor)
  | .ok (a, c) => .ok (F a, r.cursor c)
  | .error i => .error (r.interruption i)

/-- A parser does with changed tokens what another does with the tokens themselves. -/
def Follows (r : Relabel) (F : α → α') (p : Parse α) (q : Parse α') : Prop :=
  ∀ c, q (r.cursor c) = Relabeled r F (p c)

namespace Follows

variable {p : Parse α} {q : Parse α'} {F : α → α'} {G : β → β'} {f : α → Parse β}
  {g : α' → Parse β'}

theorem pure {a : α} {b : α'} (h : b = F a) : Follows r F (Pure.pure a) (Pure.pure b) := by
  intro c
  rw [h]
  rfl

theorem bind (hp : Follows r F p q) (hf : ∀ a, Follows r G (f a) (g (F a))) :
    Follows r G (p >>= f) (q >>= g) := by
  intro c
  have hstep := hp c
  rw [bind_apply, bind_apply, hstep]
  cases p c with
  | error i => rfl
  | ok x => exact hf x.1 x.2

theorem map {m : α → β} {n : α' → β'} (hp : Follows r F p q) (h : ∀ a, n (F a) = G (m a)) :
    Follows r G (m <$> p) (n <$> q) := by
  rw [map_eq_pure_bind, map_eq_pure_bind]
  exact hp.bind fun a => pure (h a)

theorem fail {expected : Expected} :
    Follows r F (Parse.fail expected) (Parse.fail expected) := by
  intro c
  have hnext := r.next_cursor c
  show Except.error _ = Except.error _
  rw [hnext]
  rfl

theorem holding {items items' : List Item} (hitems : items' = items.map r.item)
    (hp : Follows r F p q) : Follows r F (Parse.holding items p) (Parse.holding items' q) := by
  intro c
  have hstep := hp c
  unfold Parse.holding
  rw [hstep, hitems]
  cases p c with
  | ok x => rfl
  | error i => simp [Relabeled, Relabel.interruption]

/-! Steps of a parser, with what comes behind them. -/

variable {h : Unit → Parse β} {h' : Unit → Parse β'}

theorem next {f : Token → Parse β} {g : Token → Parse β'}
    (hf : ∀ t, Follows r G (f t) (g (r.token t))) :
    Follows r G (Parse.next >>= f) (Parse.next >>= g) := by
  intro c
  have hstep := hf c.next c
  rw [← r.next_cursor] at hstep
  exact hstep

theorem kind {f : Kind → Parse β} {g : Kind → Parse β'} (hf : ∀ k, Follows r G (f k) (g k)) :
    Follows r G (Parse.kind >>= f) (Parse.kind >>= g) := by
  intro c
  have hsame : (r.cursor c).next.kind = c.next.kind := by rw [r.next_cursor, r.kind_token]
  show g (r.cursor c).next.kind (r.cursor c) = _
  rw [hsame]
  exact hf c.next.kind c

theorem kindBehind {f : Kind → Parse β} {g : Kind → Parse β'}
    (hf : ∀ k, Follows r G (f k) (g k)) :
    Follows r G (Parse.kindBehind >>= f) (Parse.kindBehind >>= g) := by
  intro c
  show g (r.cursor c).kindBehind (r.cursor c) = _
  rw [r.kindBehind_cursor]
  exact hf c.kindBehind c

theorem advance (hf : Follows r G (h ()) (h' ())) :
    Follows r G (Parse.advance >>= h) (Parse.advance >>= h') := by
  intro c
  have hstep := hf c.advance
  rw [← r.advance_cursor] at hstep
  exact hstep

theorem spanFrom {f : Span → Parse β} {g : Span → Parse β'} {first : Span}
    (hf : ∀ span, Follows r G (f span) (g (r.place span))) :
    Follows r G (Parse.spanFrom first >>= f) (Parse.spanFrom (r.place first) >>= g) := by
  intro c
  have hstep := hf (first.hull c.last) c
  rw [r.hull] at hstep
  exact hstep

theorem accept {k : Kind} {f : Bool → Parse β} {g : Bool → Parse β'}
    (hf : ∀ found, Follows r G (f found) (g found)) :
    Follows r G (Parse.accept k >>= f) (Parse.accept k >>= g) := by
  have hsame : Follows r id (Parse.accept k) (Parse.accept k) := by
    refine kind fun k' => ?_
    split
    · exact advance (pure rfl)
    · exact pure rfl
  exact hsame.bind hf

theorem require {k : Kind} {expected : Expected} {f : Token → Parse β} {g : Token → Parse β'}
    (hf : ∀ t, t.kind = k → Follows r G (f t) (g (r.token t))) :
    Follows r G (Parse.require k expected >>= f) (Parse.require k expected >>= g) := by
  unfold Parse.require
  rw [bind_assoc, bind_assoc]
  refine next fun t => ?_
  rw [r.kind_token]
  split
  · rename_i hk
    rw [bind_assoc, bind_assoc]
    exact advance (hf t hk)
  · exact fail

theorem expect {mark : Punct} {place : Place} (hf : Follows r G (h ()) (h' ())) :
    Follows r G (Parse.expect mark place >>= h) (Parse.expect mark place >>= h') := by
  unfold Parse.expect
  rw [bind_assoc, bind_assoc]
  exact require fun t _ => hf

/-- A mark that closes a phrase, with what is held back for the case that it is missing. -/
theorem close {mark : Punct} {place : Place} {items items' : List Item}
    (hitems : items' = items.map r.item) (hf : Follows r G (h ()) (h' ())) :
    Follows r G (Parse.holding items (Parse.expect mark place) >>= h)
      (Parse.holding items' (Parse.expect mark place) >>= h') := by
  have hmark : Follows r id (Parse.expect mark place) (Parse.expect mark place) := by
    have hstep : Follows r id (Parse.expect mark place >>= Pure.pure)
        (Parse.expect mark place >>= Pure.pure) := expect (pure rfl)
    rwa [bind_pure] at hstep
  exact (holding hitems hmark).bind fun _ => hf

theorem name {role : NameRole} {f : String × Span → Parse β} {g : String × Span → Parse β'}
    (hf : ∀ name span, Follows r G (f (name, span)) (g (r.name name, r.place span))) :
    Follows r G (Parse.name role >>= f) (Parse.name role >>= g) := by
  unfold Parse.name
  rw [bind_assoc, bind_assoc]
  refine require fun t ht => ?_
  have hstep := hf t.lexeme t.span
  rw [← r.lexeme_token ht, ← r.span_token] at hstep
  exact hstep

theorem commaSeparated (hp : Follows r F p q) {items : α → List Item} {items' : α' → List Item}
    (hitems : ∀ a, items' (F a) = (items a).map r.item) (fuel : Nat) :
    Follows r (List.map F) (Parse.commaSeparated p items fuel)
      (Parse.commaSeparated q items' fuel) := by
  induction fuel with
  | zero => exact hp.bind fun a => pure rfl
  | succ fuel ih =>
      refine hp.bind fun a => accept fun more => ?_
      split
      · exact (holding (hitems a) ih).bind fun others => pure rfl
      · exact pure rfl

end Follows

end Parse

namespace Grammar

open Parse

variable {r : Relabel}

/-! ## Expressions -/

theorem map_looseExpr (e : Expr) : looseExpr (r.expr e) = (looseExpr e).map r.item := rfl

theorem map_looseStmt (s : Stmt) : looseStmt (r.stmt s) = (looseStmt s).map r.item := rfl

theorem map_looseAssign (a : Assign) : looseAssign (r.assign a) = (looseAssign a).map r.item := rfl

/-- Pieces that are held back change one by one. -/
theorem flatMap_map {α α' : Type} {F : α → α'} {loose : α → List Item} {loose' : α' → List Item}
    (h : ∀ a, loose' (F a) = (loose a).map r.item) (as : List α) :
    (as.map F).flatMap loose' = (as.flatMap loose).map r.item := by
  simp only [List.flatMap_map, List.map_flatMap, h]

/-- A clause of a loop that may be missing is held back like any other piece. -/
theorem map_looseClause {α : Type} {F : α → α} {loose : α → List Item}
    (hloose : ∀ a, loose (F a) = (loose a).map r.item) (clause : Option α) :
    (clause.map F).toList.flatMap loose = (clause.toList.flatMap loose).map r.item := by
  cases clause with
  | none => rfl
  | some a => simp [hloose]

theorem follows_chain {operand operand' : Parse Expr} (h : Follows r r.expr operand operand')
    (tier : Tier) (fuel : Nat) (left : Expr) :
    Follows r r.expr (chain tier operand fuel left)
      (chain tier operand' fuel (r.expr left)) := by
  induction fuel generalizing left with
  | zero => exact .pure rfl
  | succ fuel ih =>
      refine .kind fun k => ?_
      cases operatorOf tier k with
      | none => exact .pure rfl
      | some op =>
          have hright := Follows.holding (map_looseExpr left) h
          exact .advance (hright.bind fun right => ih (.binary op left right))

theorem follows_expressionOver {operand operand' : Parse Expr}
    (h : Follows r r.expr operand operand') (fuel : Nat) :
    Follows r r.expr (expressionOver fuel operand) (expressionOver fuel operand') := by
  unfold expressionOver
  induction Tier.all with
  | nil => exact h
  | cons tier rest ih => exact ih.bind fun left => follows_chain ih tier fuel left

section

variable {expression expression' : Parse Expr} (h : Follows r r.expr expression expression')

include h

theorem follows_arguments (fuel : Nat) :
    Follows r (List.map r.expr) (Grammar.arguments fuel expression)
      (Grammar.arguments fuel expression') := by
  have hclose : ∀ args : List Expr, Follows r (List.map r.expr)
      (do holding (args.flatMap looseExpr) (expect .rightParen .arguments); return args)
      (do holding ((args.map r.expr).flatMap looseExpr) (expect .rightParen .arguments)
          return args.map r.expr) := fun args =>
    .close (flatMap_map map_looseExpr args) (.pure rfl)
  refine .expect (.kind fun k => ?_)
  dsimp only
  split
  · exact hclose []
  · exact (h.commaSeparated map_looseExpr fuel).bind hclose

theorem follows_index : Follows r r.expr (Grammar.index expression) (Grammar.index expression') :=
  h.bind fun i => .close (map_looseExpr i) (.pure rfl)

theorem follows_named (fuel : Nat) (name : String) (span : Span) :
    Follows r r.expr (named fuel expression name span)
      (named fuel expression' (r.name name) (r.place span)) := by
  refine .kind fun k => ?_
  split
  · refine (follows_arguments h fuel).bind fun args => .spanFrom fun _ => .pure ?_
    rw [← r.exprs_eq_map]
    rfl
  · refine .accept fun found => ?_
    split
    · exact (follows_index h).bind fun i => .spanFrom fun _ => .pure rfl
    · exact .pure rfl

theorem follows_parenthesized (span : Span) :
    Follows r r.expr (parenthesized expression span)
      (parenthesized expression' (r.place span)) :=
  h.bind fun inner => .close (map_looseExpr inner) (.spanFrom fun _ => .pure rfl)

end

theorem follows_operandOver {operand operand' : Parse Expr}
    (h : Follows r r.expr operand operand') (fuel : Nat) :
    Follows r r.expr (operandOver fuel operand) (operandOver fuel operand') := by
  have hexpression := follows_expressionOver h fuel
  refine .next fun t => ?_
  obtain ⟨kind, text, span⟩ := t
  cases kind with
  | intLiteral | charLiteral | stringLiteral => exact .advance (.pure rfl)
  | identifier => exact .advance (follows_named hexpression fuel text span)
  | punct mark =>
      cases mark with
      | leftParen => exact .advance (follows_parenthesized hexpression span)
      | minus | bang => exact .advance (h.bind fun inner => .pure rfl)
      | plus | star | slash | less | greater | equal | equalEqual | bangEqual | lessEqual
      | greaterEqual | andAnd | orOr | comma | semicolon | rightParen | leftBrace | rightBrace
      | leftBracket | rightBracket => exact .fail
  | typeWord | keyword | endOfFile | invalid => exact .fail

theorem follows_operand (fuel : Nat) : Follows r r.expr (operand fuel) (operand fuel) := by
  induction fuel with
  | zero => exact .fail
  | succ fuel ih => exact follows_operandOver ih fuel

theorem follows_expression (fuel : Nat) :
    Follows r r.expr (expression fuel) (expression fuel) :=
  follows_expressionOver (follows_operand fuel) fuel

/-! ## Statements -/

theorem follows_optionalBefore {α α' : Type} {F : α → α'} {p : Parse α} {q : Parse α'}
    (h : Follows r F p q) (mark : Punct) :
    Follows r (Option.map F) (optionalBefore mark p) (optionalBefore mark q) := by
  refine .kind fun k => ?_
  split
  · exact .pure rfl
  · exact h.bind fun a => .pure rfl

theorem follows_target (fuel : Nat) :
    Follows r (Prod.map r.target r.place) (target fuel) (target fuel) := by
  refine .name fun name span => .accept fun found => ?_
  split
  · have hindex := follows_index (follows_expression (r := r) fuel)
    exact hindex.bind fun i => .spanFrom fun _ => .pure rfl
  · exact .pure rfl

theorem follows_assignment (fuel : Nat) :
    Follows r r.assign (assignment fuel) (assignment fuel) := by
  refine (follows_target fuel).bind fun target => ?_
  have hvalue : Follows r r.expr (do expect .equal .target; expression fuel)
      (do expect .equal .target; expression fuel) := .expect (follows_expression fuel)
  exact (Follows.holding rfl hvalue).bind fun value => .spanFrom fun _ => .pure rfl

theorem follows_condition (fuel : Nat) (place : Place) :
    Follows r r.expr (condition fuel place) (condition fuel place) :=
  .expect ((follows_expression fuel).bind fun test => .close (map_looseExpr test) (.pure rfl))

section

variable {statement statement' : Parse Stmt} (h : Follows r r.stmt statement statement')

include h

theorem follows_branch (fuel : Nat) (span : Span) :
    Follows r r.stmt (branch fuel statement span) (branch fuel statement' (r.place span)) := by
  refine (follows_condition fuel _).bind fun test => .holding (map_looseExpr test) ?_
  refine h.bind fun thenPart => .accept fun found => ?_
  split
  · have helse := Follows.holding (map_looseStmt thenPart) h
    exact helse.bind fun elsePart => .spanFrom fun _ => .pure rfl
  · exact .spanFrom fun _ => .pure rfl

theorem follows_whileLoop (fuel : Nat) (span : Span) :
    Follows r r.stmt (whileLoop fuel statement span)
      (whileLoop fuel statement' (r.place span)) := by
  refine (follows_condition fuel _).bind fun test => ?_
  have hbody := Follows.holding (map_looseExpr test) h
  exact hbody.bind fun body => .spanFrom fun _ => .pure rfl

theorem follows_forLoop (fuel : Nat) (span : Span) :
    Follows r r.stmt (forLoop fuel statement span) (forLoop fuel statement' (r.place span)) := by
  have hassignment := follows_assignment (r := r) fuel
  have htest := follows_expression (r := r) fuel
  refine .expect ((follows_optionalBefore hassignment _).bind fun start => ?_)
  refine .holding (map_looseClause map_looseAssign start) (.expect ?_)
  refine (follows_optionalBefore htest _).bind fun test => ?_
  refine .holding (map_looseClause map_looseExpr test) (.expect ?_)
  refine (follows_optionalBefore hassignment _).bind fun update => ?_
  refine .holding (map_looseClause map_looseAssign update) (.expect ?_)
  exact h.bind fun body => .spanFrom fun _ => .pure rfl

theorem follows_statements (fuel : Nat) :
    Follows r (List.map r.stmt) (statements statement fuel) (statements statement' fuel) := by
  induction fuel with
  | zero => exact .pure rfl
  | succ fuel ih =>
      refine .kind fun k => ?_
      split
      · exact .pure rfl
      · exact h.bind fun s => (Follows.holding (map_looseStmt s) ih).bind fun rest => .pure rfl

theorem follows_block (fuel : Nat) :
    Follows r r.stmt (block fuel statement) (block fuel statement') := by
  refine (follows_statements h fuel).bind fun body => ?_
  refine .close (flatMap_map map_looseStmt body) (.pure ?_)
  rw [← r.stmts_eq_map]
  rfl

end

theorem follows_ret (fuel : Nat) (span : Span) :
    Follows r r.stmt (ret fuel span) (ret fuel (r.place span)) := by
  refine (follows_optionalBefore (follows_expression fuel) _).bind fun value => ?_
  exact .close (map_looseClause map_looseExpr value) (.spanFrom fun _ => .pure rfl)

theorem follows_callStatement (fuel : Nat) :
    Follows r r.stmt (callStatement fuel) (callStatement fuel) := by
  refine .name fun name span => ?_
  refine (follows_arguments (follows_expression fuel) fuel).bind fun args => .spanFrom fun _ => ?_
  exact .close (flatMap_map map_looseExpr args) (.pure rfl)

theorem follows_assignStatement (fuel : Nat) :
    Follows r r.stmt (assignStatement fuel) (assignStatement fuel) :=
  (follows_assignment fuel).bind fun a => .close (map_looseAssign a) (.pure rfl)

theorem follows_statementOver {statement statement' : Parse Stmt}
    (h : Follows r r.stmt statement statement') (fuel : Nat) :
    Follows r r.stmt (statementOver fuel statement) (statementOver fuel statement') := by
  refine .next fun t => ?_
  obtain ⟨kind, text, span⟩ := t
  cases kind with
  | keyword word =>
      cases word with
      | ifWord => exact .advance (follows_branch h fuel span)
      | whileWord => exact .advance (follows_whileLoop h fuel span)
      | forWord => exact .advance (follows_forLoop h fuel span)
      | returnWord => exact .advance (follows_ret fuel span)
      | external | elseWord => exact .fail
  | punct mark =>
      cases mark with
      | leftBrace => exact .advance (follows_block h fuel)
      | semicolon => exact .advance (.pure rfl)
      | plus | minus | star | slash | bang | less | greater | equal | equalEqual | bangEqual
      | lessEqual | greaterEqual | andAnd | orOr | comma | leftParen | rightParen | rightBrace
      | leftBracket | rightBracket => exact .fail
  | identifier =>
      refine .kindBehind fun k => ?_
      split
      · exact follows_callStatement fuel
      · exact follows_assignStatement fuel
  | intLiteral | charLiteral | stringLiteral | typeWord | endOfFile | invalid => exact .fail

theorem follows_statement (fuel : Nat) :
    Follows r r.stmt (statement fuel) (statement fuel) := by
  induction fuel with
  | zero => exact .fail
  | succ fuel ih => exact follows_statementOver ih fuel

/-! ## Declarations -/

theorem follows_typeWord {β β' : Type} {G : β → β'} {f : TypeSpec → Parse β}
    {g : TypeSpec → Parse β'} (hf : ∀ spec, Follows r G (f spec) (g spec)) :
    Follows r G (typeWord >>= f) (typeWord >>= g) := by
  have hword : Follows r id typeWord typeWord := by
    refine .kind fun k => ?_
    split
    · exact .advance (.pure rfl)
    · exact .fail
  exact hword.bind hf

theorem follows_declarator (name : String) (span : Span) :
    Follows r r.item (declarator name span) (declarator (r.name name) (r.place span)) := by
  refine .accept fun isArray => ?_
  split
  · refine .require fun size hsize => .expect (.spanFrom fun _ => .pure ?_)
    rw [r.lexeme_token_of_ne (by simp [hsize]), r.span_token]
    rfl
  · exact .pure rfl

theorem follows_declarators (fuel : Nat) (name : String) (span : Span) :
    Follows r (List.map r.item) (declarators fuel name span)
      (declarators fuel (r.name name) (r.place span)) := by
  have hanother : Follows r r.item (Parse.name .object >>= fun x => declarator x.1 x.2)
      (Parse.name .object >>= fun x => declarator x.1 x.2) :=
    .name fun name span => follows_declarator name span
  refine (follows_declarator name span).bind fun first => ?_
  refine Follows.bind (F := List.map r.item) (.holding rfl (.accept fun more => ?_))
    fun others => .close rfl (.pure rfl)
  split
  · exact hanother.commaSeparated (fun _ => rfl) fuel
  · exact .pure rfl

theorem follows_param : Follows r r.param param param := by
  refine follows_typeWord fun spec => .name fun name span => .accept fun isArray => ?_
  cases isArray with
  | true => exact .expect (.pure rfl)
  | false => exact .pure rfl

theorem follows_parameters (fuel : Nat) :
    Follows r (List.map r.param) (parameters fuel) (parameters fuel) := by
  have hclose : ∀ params : List Param, Follows r (List.map r.param)
      (do expect .rightParen .parameters; return params)
      (do expect .rightParen .parameters; return params.map r.param) := fun params =>
    .expect (.pure rfl)
  refine .expect (.kind fun k => .kindBehind fun k' => ?_)
  dsimp only
  split
  · exact .advance (hclose [])
  · split
    · exact hclose []
    · exact (follows_param.commaSeparated (fun _ => rfl) fuel).bind hclose

theorem follows_prototype (fuel : Nat) :
    Follows r (List.map r.item) (prototype fuel) (prototype fuel) :=
  .name fun _ _ => (follows_parameters fuel).bind fun _ => .pure rfl

theorem follows_prototypes (fuel : Nat) :
    Follows r (List.map r.item) (prototypes fuel) (prototypes fuel) := by
  have hclose : ∀ others : List Item, Follows r (List.map r.item)
      (do holding others (expect .semicolon .prototype); return others ++ [.endPrototypes])
      (do holding (others.map r.item) (expect .semicolon .prototype)
          return others.map r.item ++ [.endPrototypes]) := fun others => by
    refine .close rfl (.pure ?_)
    rw [List.map_append]
    rfl
  refine .accept fun more => ?_
  dsimp only
  split
  · have hothers : Follows r (List.map (List.map r.item))
        (commaSeparated (prototype fuel) (fun items => items) fuel)
        (commaSeparated (prototype fuel) (fun items => items) fuel) := by
      refine (follows_prototype fuel).commaSeparated ?_ fuel
      exact fun _ => rfl
    exact (hothers.map fun lists => (List.map_flatten ..).symm).bind hclose
  · exact hclose []

theorem follows_locals (bound fuel : Nat) :
    Follows r (List.map r.item) (locals bound fuel) (locals bound fuel) := by
  induction fuel with
  | zero => exact .pure rfl
  | succ fuel ih =>
      refine .kind fun k => ?_
      split
      · refine follows_typeWord fun spec => .name fun name span => ?_
        refine (Follows.holding rfl (follows_declarators bound name span)).bind fun declared => ?_
        refine (Follows.holding rfl ih).bind fun rest => .pure ?_
        rw [List.map_append]
        rfl
      · exact .pure rfl

theorem follows_functionBody (fuel : Nat) :
    Follows r (List.map r.item) (functionBody fuel) (functionBody fuel) := by
  refine .expect ((follows_locals fuel fuel).bind fun declared => .holding rfl ?_)
  refine (follows_statements (follows_statement fuel) fuel).bind fun body => .next fun closing => ?_
  refine .close (flatMap_map map_looseStmt body) (.pure ?_)
  rw [List.map_append, ← r.stmts_eq_map]
  rfl

theorem follows_afterHeader (fuel : Nat) (isExtern : Bool) (header : Item) :
    Follows r (List.map r.item) (afterHeader fuel isExtern header)
      (afterHeader fuel isExtern (r.item header)) := by
  refine .kind fun k => ?_
  split
  · exact (Follows.holding rfl (follows_functionBody fuel)).bind fun rest => .pure rfl
  · exact (Follows.holding rfl (follows_prototypes fuel)).bind fun rest => .pure rfl

theorem follows_declaration (fuel : Nat) :
    Follows r (List.map r.item) (declaration fuel) (declaration fuel) := by
  refine .accept fun isExtern => follows_typeWord fun spec => .name fun name span => ?_
  have hopening : (if isExtern then [Item.external] else []) ++ [Item.spec spec] =
      ((if isExtern then [Item.external] else []) ++ [Item.spec spec]).map r.item := by
    cases isExtern <;> rfl
  refine .holding hopening (.kind fun k => ?_)
  generalize (if isExtern then [Item.external] else []) ++ [Item.spec spec] = opening at hopening ⊢
  split
  · refine (follows_parameters fuel).bind fun params => ?_
    refine (follows_afterHeader fuel isExtern (.header name span params)).bind fun rest => ?_
    exact .pure (by rw [List.map_append, ← hopening])
  · split
    · exact .fail
    · refine (follows_declarators fuel name span).bind fun rest => ?_
      exact .pure (by rw [List.map_append, ← hopening])

theorem follows_program (bound fuel : Nat) :
    Follows r (List.map r.item) (program bound fuel) (program bound fuel) := by
  induction fuel with
  | zero => exact .pure rfl
  | succ fuel ih =>
      refine .kind fun k => ?_
      split
      · exact .pure rfl
      · refine (follows_declaration bound).bind fun items => ?_
        refine (Follows.holding rfl ih).bind fun rest => .pure ?_
        exact List.map_append.symm

end Grammar

/-- **A changed program is read as such.** The items and the fault of changed tokens are those of
the tokens themselves, changed. -/
theorem Reading.ofTokens_map (r : Relabel) (tokens : List Token) :
    Reading.ofTokens (tokens.map r.token) =
      ⟨(ofTokens tokens).items.map r.item, (ofTokens tokens).fault?.map r.syntaxFault⟩ := by
  have hread := Grammar.follows_program (r := r) tokens.length tokens.length (.start tokens)
  unfold ofTokens
  rw [List.length_map, r.start_map, StateT.run, hread, StateT.run]
  cases Grammar.program tokens.length tokens.length (.start tokens) <;> rfl

end Cmm
