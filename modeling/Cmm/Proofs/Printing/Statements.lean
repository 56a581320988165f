import Cmm.Proofs.Printing.Commands
import Cmm.Proofs.Sentence.Statements

/-!
# Statements are read as they are written

The words of a command are read to a statement that is checked to its tree. One lemma per
production, over the statements that are inside of it.

* `IsWritable.gets_words` — expressions, assignments and conditions in front of what follows them.
* `Grammar.gets_optionalBefore` — a part that may be missing is told by the mark behind it.
* `Command.first_words` — no command begins like an `else` or like the end of a block.
* `Grammar.gets_statement` — every command, in front of anything but an `else` where it is open.
-/

set_option autoImplicit false

namespace Cmm

open Parse Grammar Sentence

variable {t : Table} {s : Spelling} {result : TypeSpec} {k : List Kind} {fuel : Nat}

/-! ## Parts of statements -/

theorem Node.IsWritable.stands {n : Node} (h : n.IsWritable t s) : (n.written t s).Stands s 0 :=
  (h.typed.written h.named h.spelled).stands 0 (Nat.zero_le _)

/-- An expression in front of a mark that closes it. -/
theorem Node.IsWritable.gets_words {n : Node} (h : n.IsWritable t s)
    (hfuel : (n.words t s).length ≤ fuel) (hk : Kind.first k ∈ closers) :
    Gets (expression fuel) (n.words t s) k fun e => (e.check t).MakesTree n := by
  have hgets := h.stands.gets_words hfuel (.of_closer hk _)
  exact hgets.imp fun e same => h.makes same

/-- What an assignment gives its value to, in front of anything but a subscript. -/
theorem Grammar.gets_target {n : Node} (place : n.IsPlace) (h : n.IsWritable t s)
    (hfuel : (n.words t s).length ≤ fuel) (hk : Kind.first k ≠ .punct .leftBracket) :
    Gets (target fuel) (n.words t s) k fun r => (r.1.check t).MakesTree n := by
  cases place with
  | var handle ty span =>
      apply Gets.last Gets.name
      rintro ⟨name, span⟩ rfl
      apply Gets.refuse (w := []) hk
      apply Gets.pure
      exact h.makes (e := .var _ _) rfl
  | element handle index ty span =>
      cases h.stands with
      | element _ _ index_stands =>
          have hlength : ((index.written t s).words s).length ≤ fuel := by
            have := hfuel
            simp only [Node.words, Node.written, Form.written, Expr.words, List.length_cons,
              List.length_append] at this
            omega
          apply Gets.cons Gets.name
          rintro ⟨name, span⟩ rfl
          apply Gets.accept (x := Punct.leftBracket.word)
          have hindex : Expr.ReadsInside (expression fuel) ((index.written t s).words s)
              (·.unplaced = (index.written t s).unplaced) := by
            intro k hk
            exact index_stands.gets_words hlength (.of_closer hk _)
          apply (Expr.gets_index hindex).last
          intro i hi
          apply Gets.spanFrom
          intro span
          apply Gets.pure
          apply h.makes (e := .element _ i span)
          rw [Expr.unplaced_element, hi]
          rfl

namespace Assignment

variable {a : Assignment}

/-- The second kind tells an assignment from a call. -/
theorem IsWritable.first_words (h : a.IsWritable t s) :
    ∃ name x v, a.words t s = (.identifier, name) :: x :: v ∧ x.1 ≠ .punct .leftParen := by
  obtain ⟨target, value⟩ := a
  cases h.place with
  | var handle ty span => exact ⟨_, _, _, rfl, nofun⟩
  | element handle index ty span => exact ⟨_, _, _, rfl, nofun⟩

theorem IsWritable.gets_words (h : a.IsWritable t s) (hfuel : (a.words t s).length ≤ fuel)
    (hk : Kind.first k ∈ closers) :
    Gets (assignment fuel) (a.words t s) k fun r => (r.check t).MakesTree a.tree := by
  rw [Assignment.words, List.length_append, List.length_cons] at hfuel
  apply Gets.bind (gets_target h.place h.target (by omega) (by simp [Kind.first, Punct.word]))
  rintro ⟨place, span⟩ hplace
  apply Gets.last (P := fun e => (e.check t).MakesTree a.value)
  · apply Gets.holding
    apply Gets.cons Gets.expect
    intro _ _
    exact h.value.gets_words (by omega) hk
  · intro value hvalue
    apply Gets.spanFrom
    intro span
    apply Gets.pure
    exact Assign.makes h hplace hvalue span

end Assignment

namespace Grammar

theorem gets_condition {test : Node} {place : Place} (h : test.IsCondition t s)
    (hfuel : (test.conditionWords t s).length ≤ fuel) :
    Gets (condition fuel place) (test.conditionWords t s) k
      fun e => (e.check t).MakesTree test := by
  rw [Node.conditionWords, List.length_cons, List.length_append] at hfuel
  apply Gets.cons Gets.expect
  intro _ _
  apply Gets.bind
  · apply h.writable.gets_words (by omega)
    show Kind.punct .rightParen ∈ closers
    decide
  · intro e he
    exact Gets.closing he

/-- A part that may be missing is told by its first word from the mark behind it. -/
theorem gets_optionalBefore {α γ : Type} {p : Parse α} {words : γ → List Word} {R : α → γ → Prop}
    {mark : Punct} {part : Option γ} (hk : Kind.first k = .punct mark)
    (h : ∀ g ∈ part, Gets p (words g) k (R · g) ∧ ∃ x v, words g = x :: v ∧ x.1 ≠ .punct mark) :
    Gets (optionalBefore mark p) (Word.optional words part) k (Option.Rel R · part) := by
  cases part with
  | none =>
      apply Gets.kind (w := []) hk
      rw [if_pos rfl]
      exact .pure .none
  | some g =>
      obtain ⟨hgets, x, v, hx, hne⟩ := h g rfl
      have hfirst : Kind.first (Word.kinds (words g) ++ k) = x.1 := by
        rw [hx]
        rfl
      apply Gets.kind (w := words g) hfirst
      rw [if_neg hne]
      apply hgets.last
      intro a ha
      exact .pure (.some ha)

theorem gets_optional_expression {part : Option Node} {mark : Punct}
    (h : ∀ n ∈ part, n.IsWritable t s)
    (hfuel : (Word.optional (Node.words t s) part).length ≤ fuel)
    (hk : Kind.first k = .punct mark) (hmark : .punct mark ∈ closers) :
    Gets (optionalBefore mark (expression fuel)) (Word.optional (Node.words t s) part) k
      (Option.Rel (fun e n => (e.check t).MakesTree n) · part) := by
  apply gets_optionalBefore hk
  rintro n ⟨⟩
  exact ⟨(h n rfl).gets_words hfuel (hk ▸ hmark), (h n rfl).stands.first_ne hmark⟩

theorem gets_optional_assignment {part : Option Assignment} {mark : Punct}
    (h : ∀ a ∈ part, a.IsWritable t s)
    (hfuel : (Word.optional (Assignment.words t s) part).length ≤ fuel)
    (hk : Kind.first k = .punct mark) (hmark : .punct mark ∈ closers) :
    Gets (optionalBefore mark (assignment fuel)) (Word.optional (Assignment.words t s) part) k
      (Option.Rel (fun r a => (r.check t).MakesTree a.tree) · part) := by
  apply gets_optionalBefore hk
  rintro a ⟨⟩
  obtain ⟨name, x, v, hwords, -⟩ := (h a rfl).first_words
  exact ⟨(h a rfl).gets_words hfuel (hk ▸ hmark), _, _, hwords, nofun⟩

end Grammar

/-! ## Where commands begin -/

/-- Every command begins as statements do. -/
theorem Command.IsWritable.first_words {c : Command} (h : c.IsWritable t s result) :
    ∃ x v, c.words t s = x :: v ∧ x.1 ∈ starters := by
  cases h with
  | assign writable =>
      obtain ⟨name, x, v, hwords, -⟩ := writable.first_words
      rw [Command.words, hwords]
      exact ⟨_, _, rfl, by simp [starters]⟩
  | _ => exact ⟨_, _, rfl, by simp [starters, Punct.word, Keyword.word]⟩

/-! ## Productions -/

/-- A statement is checked to the tree of a command. -/
def Stmt.Makes (t : Table) (result : TypeSpec) (c : Command) (stmt : Stmt) : Prop :=
  (stmt.check t result).MakesPart c.tree

namespace Grammar

theorem gets_ret {value : Option Node} {span : Span}
    (h : Command.IsWritable t s result (.ret value))
    (hfuel : (Word.optional (Node.words t s) value).length ≤ fuel) :
    Gets (ret fuel span) (Word.optional (Node.words t s) value ++ [Punct.semicolon.word]) k
      (Stmt.Makes t result (.ret value)) := by
  have hvalue : ∀ n ∈ value, n.IsWritable t s := by
    cases h with
    | bareReturn => nofun
    | valueReturn _ writable _ =>
        rintro n ⟨⟩
        exact writable
  apply Gets.bind (gets_optional_expression hvalue hfuel rfl (by decide))
  intro e? he
  apply Gets.expect.holding.last
  intro _ _
  apply Gets.spanFrom
  intro span
  apply Gets.pure
  cases h with
  | bareReturn no_result =>
      cases he
      exact Stmt.makes_bareReturn no_result span
  | valueReturn has_result _ number =>
      cases he with
      | some he => exact Stmt.makes_valueReturn has_result he number span

theorem gets_assignStatement {a : Assignment} (h : a.IsWritable t s)
    (hfuel : (a.words t s).length ≤ fuel) :
    Gets (assignStatement fuel) (a.words t s ++ [Punct.semicolon.word]) k
      (Stmt.Makes t result (.assign a)) := by
  apply Gets.bind
  · apply h.gets_words hfuel
    show Kind.punct .semicolon ∈ closers
    decide
  · intro r hr
    apply Gets.closing
    exact hr.some

theorem gets_callStatement {callee : Handle} {args : Option Node}
    (h : Node.IsWritable t s ⟨.call callee args, .void, ⟨0, 0⟩⟩)
    (hfuel : (Node.words t s ⟨.call callee args, .void, ⟨0, 0⟩⟩).length ≤ fuel) :
    Gets (callStatement fuel)
      (Node.words t s ⟨.call callee args, .void, ⟨0, 0⟩⟩ ++ [Punct.semicolon.word]) k
      (Stmt.Makes t result (.call callee args)) := by
  cases h.stands with
  | call _ _ inside =>
      simp only [Node.words, Node.written, Form.written, Expr.words, Expr.wordsAll_eq_map,
        List.length_cons, List.length_append] at hfuel ⊢
      have hreads : ∀ e ∈ Node.writtenItems t s args,
          Expr.ReadsInside (expression fuel) (e.words s) (·.unplaced = e.unplaced) := by
        intro e he k hk
        have := Word.length_le_commaJoined (List.mem_map_of_mem (f := Expr.words s) he)
        exact (inside e he).gets_words (by omega) (.of_closer hk _)
      have hcount := Word.length_le_length_commaJoined
        ((Node.writtenItems t s args).map (Expr.words s))
      rw [List.length_map] at hcount
      apply Gets.cons Gets.name
      rintro ⟨name, span⟩ rfl
      apply Gets.bind (u := Punct.leftParen.word :: (_ ++ [Punct.rightParen.word]))
      · apply Expr.gets_arguments hreads (fun e he => (inside e he).first_ne (by decide))
        omega
      · intro es hes
        apply Gets.spanFrom
        intro span
        apply Gets.closing
        apply Stmt.makes_call h
        exact Expr.map_unplaced_of_forall₂ hes

section

variable {statement : Parse Stmt} {test : Node} {c thenPart elsePart : Command} {span : Span}
  (hstatement : ∀ c k, Command.IsWritable t s result c → (c.words t s).length ≤ fuel →
    (c.isOpen = true → Kind.first k ≠ .keyword .elseWord) →
    Gets statement (c.words t s) k (Stmt.Makes t result c))

include hstatement

theorem gets_branch (condition : test.IsCondition t s) (writable : thenPart.IsWritable t s result)
    (hfuel : (test.conditionWords t s ++ thenPart.words t s).length ≤ fuel)
    (hk : Kind.first k ≠ .keyword .elseWord) :
    Gets (branch fuel statement span) (test.conditionWords t s ++ thenPart.words t s) k
      (Stmt.Makes t result (.branch test thenPart)) := by
  rw [List.length_append] at hfuel
  apply (gets_condition condition (by omega)).bind
  intro e he
  apply Gets.holding
  apply (hstatement thenPart k writable (by omega) fun _ => hk).last
  intro yes hyes
  apply Gets.refuse (w := []) hk
  apply Gets.spanFrom
  intro span
  apply Gets.pure
  exact Stmt.makes_branch he condition.truth hyes (.pure rfl) span

/-- The first part is not open, so the `else` belongs to this `if`. -/
theorem gets_branchElse (condition : test.IsCondition t s)
    (then_writable : thenPart.IsWritable t s result) (closed : thenPart.isOpen = false)
    (else_writable : elsePart.IsWritable t s result)
    (hfuel : (test.conditionWords t s ++ (thenPart.words t s ++
      Keyword.elseWord.word :: elsePart.words t s)).length ≤ fuel)
    (hk : elsePart.isOpen = true → Kind.first k ≠ .keyword .elseWord) :
    Gets (branch fuel statement span) (test.conditionWords t s ++ (thenPart.words t s ++
      Keyword.elseWord.word :: elsePart.words t s)) k
      (Stmt.Makes t result (.branchElse test thenPart elsePart)) := by
  rw [List.length_append, List.length_append, List.length_cons] at hfuel
  apply (gets_condition condition (by omega)).bind
  intro e he
  apply Gets.holding
  apply (hstatement thenPart _ then_writable (by omega) (by simp [closed])).bind
  intro yes hyes
  apply Gets.accept (x := Keyword.elseWord.word)
  apply (hstatement elsePart k else_writable (by omega) hk).holding.last
  intro no hno
  apply Gets.spanFrom
  intro span
  apply Gets.pure
  have helse : (Stmt.checkElse t result (some no)).MakesPart elsePart.tree := hno
  exact Stmt.makes_branch he condition.truth hyes helse span

theorem gets_whileLoop (condition : test.IsCondition t s) (writable : c.IsWritable t s result)
    (hfuel : (test.conditionWords t s ++ c.words t s).length ≤ fuel)
    (hk : c.isOpen = true → Kind.first k ≠ .keyword .elseWord) :
    Gets (whileLoop fuel statement span) (test.conditionWords t s ++ c.words t s) k
      (Stmt.Makes t result (.whileLoop test c)) := by
  rw [List.length_append] at hfuel
  apply (gets_condition condition (by omega)).bind
  intro e he
  apply (hstatement c k writable (by omega) hk).holding.last
  intro body hbody
  apply Gets.spanFrom
  intro span
  apply Gets.pure
  exact Stmt.makes_whileLoop he condition.truth hbody span

theorem gets_forLoop {start update : Option Assignment} {test : Option Node}
    (start_writable : ∀ a ∈ start, a.IsWritable t s) (condition : ∀ n ∈ test, n.IsCondition t s)
    (update_writable : ∀ a ∈ update, a.IsWritable t s) (writable : c.IsWritable t s result)
    (hfuel : (c.words t s).length + (Word.optional (Assignment.words t s) start).length +
      (Word.optional (Node.words t s) test).length +
      (Word.optional (Assignment.words t s) update).length ≤ fuel)
    (hk : c.isOpen = true → Kind.first k ≠ .keyword .elseWord) :
    Gets (forLoop fuel statement span) (Punct.leftParen.word ::
      (Word.optional (Assignment.words t s) start ++ Punct.semicolon.word ::
        (Word.optional (Node.words t s) test ++ Punct.semicolon.word ::
          (Word.optional (Assignment.words t s) update ++ Punct.rightParen.word ::
            c.words t s)))) k
      (Stmt.Makes t result (.forLoop start test update c)) := by
  have htest : ∀ n ∈ test, n.IsWritable t s := fun n hn => (condition n hn).writable
  apply Gets.cons Gets.expect
  intro _ _
  apply (gets_optional_assignment start_writable (by omega) rfl (by decide)).bind
  intro a? ha
  apply Gets.holding
  apply Gets.cons Gets.expect
  intro _ _
  apply (gets_optional_expression htest (by omega) rfl (by decide)).bind
  intro e? he
  apply Gets.holding
  apply Gets.cons Gets.expect
  intro _ _
  apply (gets_optional_assignment update_writable (by omega) rfl (by decide)).bind
  intro b? hb
  apply Gets.holding
  apply Gets.cons Gets.expect
  intro _ _
  apply (hstatement c k writable (by omega) hk).last
  intro body hbody
  apply Gets.spanFrom
  intro span
  apply Gets.pure
  exact Stmt.makes_forLoop ha he (fun n hn => (condition n hn).truth) hb hbody span

/-- Commands in front of the brace that ends them. No `else` stands behind any of them. -/
theorem gets_statements {commands : List Command} {steps : Nat}
    (each : ∀ c ∈ commands, c.IsWritable t s result)
    (hfuel : (Command.wordsAll t s commands).length ≤ fuel)
    (hsteps : (Command.wordsAll t s commands).length ≤ steps)
    (hk : Kind.first k = .punct .rightBrace) :
    Gets (statements statement steps) (Command.wordsAll t s commands) k
      (List.Forall₂ (Stmt.Makes t result) commands) := by
  induction commands generalizing steps with
  | nil =>
      cases steps with
      | zero => exact .pure .nil
      | succ steps =>
          apply Gets.kind (w := []) hk
          rw [if_pos (.inl rfl)]
          exact .pure .nil
  | cons c rest ih =>
      have hhead := each c List.mem_cons_self
      have hrest : ∀ c ∈ rest, c.IsWritable t s result := fun c hc => each c (.tail _ hc)
      obtain ⟨x, v, hx, hfirst⟩ := hhead.first_words
      have hkind : Kind.first (Word.kinds (Command.wordsAll t s (c :: rest)) ++ k) = x.1 := by
        rw [Command.wordsAll, hx]
        rfl
      have hgo : ¬(x.1 = .punct .rightBrace ∨ x.1 = .endOfFile) := by
        rintro (heq | heq) <;> simp [starters, heq] at hfirst
      have helse : Kind.first (Word.kinds (Command.wordsAll t s rest) ++ k) ≠
          .keyword .elseWord := by
        cases rest with
        | nil =>
            rw [Command.wordsAll, Word.kinds_nil, List.nil_append, hk]
            simp
        | cons next _ =>
            obtain ⟨y, u, hy, hfirst⟩ := (hrest next List.mem_cons_self).first_words
            rw [Command.wordsAll, hy]
            intro heq
            replace heq : y.1 = .keyword .elseWord := heq
            simp [starters, heq] at hfirst
      have hlength : 0 < (c.words t s).length := by
        rw [hx]
        exact Nat.succ_pos _
      rw [Command.wordsAll, List.length_append] at hfuel hsteps
      cases steps with
      | zero => omega
      | succ steps =>
          apply Gets.kind hkind
          rw [if_neg hgo]
          apply (hstatement c _ hhead (by omega) fun _ => helse).bind
          intro stmt hstmt
          apply (ih hrest (by omega) (by omega)).holding.last
          intro stmts hstmts
          exact .pure (.cons hstmt hstmts)

theorem gets_block {commands : List Command} (each : ∀ c ∈ commands, c.IsWritable t s result)
    (hfuel : (Command.wordsAll t s commands).length ≤ fuel) :
    Gets (block fuel statement) (Command.wordsAll t s commands ++ [Punct.rightBrace.word]) k
      (Stmt.Makes t result (.block commands)) := by
  apply (gets_statements hstatement each hfuel hfuel rfl).bind
  intro body hbody
  exact Gets.closing (Stmt.makes_body hbody)

/-- One command over the commands inside it. -/
theorem gets_statementOver (writable : c.IsWritable t s result)
    (hfuel : (c.words t s).length ≤ fuel + 1)
    (hk : c.isOpen = true → Kind.first k ≠ .keyword .elseWord) :
    Gets (statementOver fuel statement) (c.words t s) k (Stmt.Makes t result c) := by
  cases writable with
  | empty =>
      apply Gets.opening fun _ => rfl
      intro span
      apply Gets.pure
      exact .pure rfl
  | block each =>
      rw [Command.words, List.length_cons, List.length_append] at hfuel
      apply Gets.opening fun _ => rfl
      intro span
      exact gets_block hstatement each (by omega)
  | @assign a writable =>
      obtain ⟨name, x, v, hwords, hx⟩ := writable.first_words
      rw [Command.words, List.length_append, List.length_singleton] at hfuel
      have hgets : Gets (assignStatement fuel) (a.words t s ++ [Punct.semicolon.word]) k
          (Stmt.Makes t result (.assign a)) :=
        gets_assignStatement writable (Nat.le_of_succ_le_succ hfuel)
      rw [Command.words]
      rw [hwords] at hgets ⊢
      apply Gets.next
      rintro ⟨kind, text, span⟩ ⟨⟩
      apply Gets.kindBehind (y := x.1) rfl
      rw [if_neg hx]
      exact hgets
  | @call callee args writable =>
      rw [Command.words, List.length_append, List.length_singleton] at hfuel
      have hgets := @gets_callStatement t s result k fuel callee args writable
        (Nat.le_of_succ_le_succ hfuel)
      apply Gets.next
      rintro ⟨kind, text, span⟩ ⟨⟩
      apply Gets.kindBehind (y := .punct .leftParen) rfl
      rw [if_pos rfl]
      exact hgets
  | branch condition then_writable =>
      rw [Command.words, List.length_cons] at hfuel
      apply Gets.opening fun _ => rfl
      intro span
      exact gets_branch hstatement condition then_writable (by omega) (hk rfl)
  | branchElse condition then_writable closed else_writable =>
      rw [Command.words, List.length_cons] at hfuel
      apply Gets.opening fun _ => rfl
      intro span
      exact gets_branchElse hstatement condition then_writable closed else_writable (by omega) hk
  | whileLoop condition body_writable =>
      rw [Command.words, List.length_cons] at hfuel
      apply Gets.opening fun _ => rfl
      intro span
      exact gets_whileLoop hstatement condition body_writable (by omega) hk
  | forLoop start_writable condition update_writable body_writable =>
      simp only [Command.words, List.length_cons, List.length_append] at hfuel
      apply Gets.opening fun _ => rfl
      intro span
      exact gets_forLoop hstatement start_writable condition update_writable body_writable
        (by omega) hk
  | bareReturn no_result =>
      apply Gets.opening fun _ => rfl
      intro span
      exact gets_ret (.bareReturn no_result) (Nat.zero_le _)
  | valueReturn has_result writable number =>
      rw [Command.words, List.length_cons, List.length_append] at hfuel
      apply Gets.opening fun _ => rfl
      intro span
      exact gets_ret (.valueReturn has_result writable number) (by omega)

end

/-- **A command is read back from its words**, in front of anything but an `else` where it is
open. -/
theorem gets_statement {c : Command} (writable : c.IsWritable t s result)
    (hfuel : (c.words t s).length ≤ fuel)
    (hk : c.isOpen = true → Kind.first k ≠ .keyword .elseWord) :
    Gets (statement fuel) (c.words t s) k (Stmt.Makes t result c) := by
  induction fuel generalizing c k with
  | zero =>
      obtain ⟨x, v, hx, -⟩ := writable.first_words
      rw [hx] at hfuel
      cases hfuel
  | succ fuel ih =>
      exact gets_statementOver (fun c k writable hfuel hk => ih writable hfuel hk) writable hfuel hk

end Grammar

end Cmm
