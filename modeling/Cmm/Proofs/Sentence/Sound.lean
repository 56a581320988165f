import Cmm.Grammar.Program
import Cmm.Proofs.Sentence.Productions
import Cmm.Proofs.Words

/-!
# What is read is a sentence

One lemma per function of the grammar: the words that it reads belong to its production.

* `Grammar.spells_expression`, `Grammar.spells_statement`, `Grammar.spells_declaration` — each by
  induction on the fuel where the function recurs.
* `Grammar.spells_program` — a program that is read to its end is a sentence. Here the fuel has to
  suffice, since a program ends where its tokens do.
-/

set_option autoImplicit false

namespace Cmm

namespace Sentence

open Ebnf Computability

/-! ## Productions as inclusions -/

theorem primary_le : words .primary ≤ words .expression := by
  intro w hw
  rw [words_expression]
  exact .inl (.inl hw)

theorem unary_le : letters unaryMarks * words .expression ≤ words .expression := by
  intro w hw
  rw [words_expression]
  exact .inl (.inr hw)

theorem binary_le :
    words .expression * (letters binaryMarks * words .expression) ≤ words .expression := by
  intro w hw
  rw [words_expression]
  exact .inr hw

theorem letter_le {ts : List Kind} {k : Kind} (hk : k ∈ ts) : letter k ≤ letters ts := by
  intro w hw
  rw [mem_letter.1 hw]
  exact ⟨k, hk, rfl⟩

theorem binOp?_mem {mark : Punct} {op : BinOp} (h : mark.binOp? = some op) :
    .punct mark ∈ binaryMarks := by
  cases mark <;> simp_all [Punct.binOp?, binaryMarks]

theorem unOp?_mem {mark : Punct} {op : UnOp} (h : mark.unOp? = some op) :
    .punct mark ∈ unaryMarks := by
  cases mark <;> simp_all [Punct.unOp?, unaryMarks]

end Sentence

namespace Grammar

open Parse Ebnf Sentence Computability

variable {K : Kind → Prop} {l : Language Kind}

/-! ## Expressions -/

theorem operatorOf_mem {tier : Tier} {k : Kind} {op : BinOp} (h : operatorOf tier k = some op) :
    k ∈ binaryMarks := by
  cases k with
  | punct mark => exact binOp?_mem (Option.eq_some_of_filter_eq_some h)
  | _ => cases h

theorem spells_chain {operand : Parse Expr} (hoperand : Spells Anywhere operand l) (tier : Tier)
    (fuel : Nat) (left : Expr) :
    Spells Anywhere (chain tier operand fuel left) (letters binaryMarks * l)∗ := by
  induction fuel generalizing left with
  | zero => exact (Spells.pure left).le one_le_kstar
  | succ fuel ih =>
      refine .kind fun k _ => ?_
      split
      · exact (Spells.pure left).le one_le_kstar
      · rename_i op hop
        have hk := operatorOf_mem hop
        have hne : k ≠ .endOfFile := by
          rintro rfl
          simp [binaryMarks] at hk
        refine ((Spells.advance hne).bind fun _ => hoperand.holding.bind fun right => ih _).le ?_
        rw [← mul_assoc]
        refine le_trans ?_ mul_kstar_le_kstar
        exact mul_le_mul' (mul_le_mul' (letter_le hk) le_rfl) le_rfl

theorem spells_level {operand : Parse Expr}
    (hoperand : Spells Anywhere operand (words .expression)) (fuel : Nat) (tier : Tier) :
    Spells Anywhere (level fuel tier operand) (words .expression) := by
  refine (hoperand.bind fun left => spells_chain hoperand tier fuel left).le ?_
  exact mul_kstar_le_self binary_le

/-- The tiers play no part in what is a sentence. -/
theorem spells_expressionOver {operand : Parse Expr}
    (hoperand : Spells Anywhere operand (words .expression)) (fuel : Nat) :
    Spells Anywhere (expressionOver fuel operand) (words .expression) := by
  unfold expressionOver
  induction Tier.all with
  | nil => exact hoperand
  | cons tier rest ih => exact spells_level ih fuel tier

section

variable {expression : Parse Expr} (hexpression : Spells Anywhere expression (words .expression))

include hexpression

theorem spells_arguments (fuel : Nat) :
    Spells Anywhere (Grammar.arguments fuel expression) Sentence.arguments := by
  refine Spells.expect.bind fun _ => .kind fun k _ => ?_
  dsimp only
  split
  · refine ((Spells.pure _).bind fun args => ?_).le (mul_le_mul' le_add_self le_rfl)
    exact Spells.expect.holding.last fun _ => .pure _
  · refine ((hexpression.commaSeparated _ _).known.bind fun args => ?_).le
      (mul_le_mul' le_self_add le_rfl)
    exact Spells.expect.holding.last fun _ => .pure _

theorem spells_index : Spells Anywhere (Grammar.index expression)
    (words .expression * punct .rightBracket) :=
  hexpression.bind fun _ => Spells.expect.holding.last fun _ => .pure _

theorem spells_named (fuel : Nat) (name : String) (span : Span) :
    Spells Anywhere (named fuel expression name span)
      (Sentence.arguments + Sentence.index + 1) := by
  refine .kind fun k _ => ?_
  split
  · refine (((spells_arguments hexpression fuel).last fun args => ?_).le ?_).known
    · exact .spanFrom fun _ => .pure _
    · exact le_self_add.trans le_self_add
  · refine Spells.le (.accept ?_ ((spells_index hexpression).last fun i => ?_) (.pure _)) ?_
    · simp
    · exact .spanFrom fun _ => .pure _
    · rw [add_assoc]
      exact le_add_self

theorem spells_parenthesized (span : Span) : Spells Anywhere (parenthesized expression span)
    (words .expression * punct .rightParen) := by
  refine hexpression.bind fun inner => Spells.expect.holding.last fun _ => ?_
  exact .spanFrom fun _ => .pure _

end

theorem spells_operandOver {operand : Parse Expr}
    (hoperand : Spells Anywhere operand (words .expression)) (fuel : Nat) :
    Spells Anywhere (operandOver fuel operand) (words .expression) := by
  have hexpression := spells_expressionOver hoperand fuel
  have hconstant : ∀ {k : Kind}, k ∈ constants → letter k ≤ words .expression := by
    intro k hk
    refine (letter_le hk).trans (le_trans ?_ primary_le)
    rw [words_primary_named]
    exact le_add_self
  refine .next fun t _ => ?_
  split
  · rename_i hk
    rw [hk]
    exact ((Spells.advance (by simp)).last fun _ => .pure _).le (hconstant (by simp [constants]))
  · rename_i hk
    rw [hk]
    exact ((Spells.advance (by simp)).last fun _ => .pure _).le (hconstant (by simp [constants]))
  · rename_i hk
    rw [hk]
    exact ((Spells.advance (by simp)).last fun _ => .pure _).le (hconstant (by simp [constants]))
  · rename_i hk
    rw [hk]
    refine ((Spells.advance (by simp)).bind fun _ => spells_named hexpression fuel _ _).le ?_
    refine le_trans ?_ primary_le
    rw [words_primary_named]
    exact le_self_add.trans le_self_add
  · rename_i hk
    rw [hk]
    refine ((Spells.advance (by simp)).bind fun _ => spells_parenthesized hexpression _).le ?_
    refine le_trans ?_ primary_le
    rw [words_primary_named]
    exact le_add_self.trans le_self_add
  · rename_i mark _ hk
    split
    · rename_i op hop
      rw [hk]
      refine ((Spells.advance (by simp)).bind fun _ => hoperand.last fun _ => .pure _).le ?_
      exact (mul_le_mul' (letter_le (unOp?_mem hop)) le_rfl).trans unary_le
    · exact .fail
  · exact .fail

theorem spells_operand (fuel : Nat) :
    Spells Anywhere (operand fuel) (words .expression) := by
  induction fuel with
  | zero => exact .fail
  | succ fuel ih => exact spells_operandOver ih fuel

/-- Whatever is read as an expression is one. -/
theorem spells_expression (fuel : Nat) :
    Spells Anywhere (expression fuel) (words .expression) :=
  spells_expressionOver (spells_operand fuel) fuel

/-! ## Statements -/

theorem spells_optionalBefore {α : Type} {p : Parse α} (hp : Spells Anywhere p l) (mark : Punct) :
    Spells K (optionalBefore mark p) (l + 1) := by
  refine .kind fun k _ => ?_
  split
  · exact (Spells.pure _).le le_add_self
  · exact (hp.last fun _ => .pure _).known.le le_self_add

theorem spells_target (fuel : Nat) :
    Spells K (target fuel) (letter .identifier * (Sentence.index + 1)) := by
  refine Spells.name.bind fun name => ?_
  refine .accept (by simp) ((spells_index (spells_expression fuel)).last fun i => ?_) (.pure _)
  exact .spanFrom fun _ => .pure _

theorem spells_assignment (fuel : Nat) :
    Spells K (assignment fuel) (words .assignment) := by
  rw [words_assignment, ← mul_assoc]
  refine (spells_target fuel).bind fun place => .last ?_ fun value => .spanFrom fun _ => .pure _
  exact (Spells.expect.bind fun _ => spells_expression fuel).holding

theorem spells_condition (fuel : Nat) (place : Place) :
    Spells K (condition fuel place) Sentence.condition := by
  refine Spells.expect.bind fun _ => (spells_expression fuel).bind fun test => ?_
  exact Spells.expect.holding.last fun _ => .pure _

section

variable {statement : Parse Stmt} (hstatement : Spells Anywhere statement (words .statement))

include hstatement

theorem spells_branch (fuel : Nat) (span : Span) :
    Spells Anywhere (branch fuel statement span) (Sentence.condition * (words .statement *
      (keyword .elseWord * words .statement + 1))) := by
  refine (spells_condition fuel _).bind fun test => .holding (hstatement.bind fun thenPart => ?_)
  refine .accept (by simp) (hstatement.holding.last fun elsePart => ?_) ?_
  · exact .spanFrom fun _ => .pure _
  · exact .spanFrom fun _ => .pure _

theorem spells_whileLoop (fuel : Nat) (span : Span) :
    Spells Anywhere (whileLoop fuel statement span) (Sentence.condition * words .statement) := by
  refine (spells_condition fuel _).bind fun test => hstatement.holding.last fun body => ?_
  exact .spanFrom fun _ => .pure _

theorem spells_forLoop (fuel : Nat) (span : Span) :
    Spells Anywhere (forLoop fuel statement span) (clauses * words .statement) := by
  have hassignment := spells_assignment (K := Anywhere) fuel
  unfold clauses
  simp only [mul_assoc]
  refine Spells.expect.bind fun _ => (spells_optionalBefore hassignment _).bind fun start => ?_
  refine .holding (Spells.expect.bind fun _ => ?_)
  refine (spells_optionalBefore (spells_expression fuel) _).bind fun test => ?_
  refine .holding (Spells.expect.bind fun _ => ?_)
  refine (spells_optionalBefore hassignment _).bind fun update => ?_
  refine .holding (Spells.expect.bind fun _ => hstatement.last fun body => ?_)
  exact .spanFrom fun _ => .pure _

theorem spells_statements (fuel : Nat) :
    Spells Anywhere (statements statement fuel) (words .statement)∗ := by
  induction fuel with
  | zero => exact (Spells.pure _).le one_le_kstar
  | succ fuel ih =>
      refine .kind fun k _ => ?_
      split
      · exact (Spells.pure _).le one_le_kstar
      · refine (hstatement.known.bind fun s => ?_).le mul_kstar_le_kstar
        exact ih.holding.last fun _ => .pure _

theorem spells_block (fuel : Nat) : Spells Anywhere (block fuel statement)
    ((words .statement)∗ * punct .rightBrace) := by
  refine (spells_statements hstatement fuel).bind fun body => ?_
  exact Spells.expect.holding.last fun _ => .pure _

end

theorem spells_ret (fuel : Nat) (span : Span) :
    Spells Anywhere (ret fuel span) ((words .expression + 1) * punct .semicolon) := by
  refine (spells_optionalBefore (spells_expression fuel) _).bind fun value => ?_
  exact Spells.expect.holding.last fun _ => .spanFrom fun _ => .pure _

theorem spells_callStatement (fuel : Nat) : Spells K (callStatement fuel)
    (letter .identifier * (Sentence.arguments * punct .semicolon)) := by
  refine Spells.name.bind fun name => ?_
  refine (spells_arguments (spells_expression fuel) fuel).bind fun args => .spanFrom fun _ => ?_
  exact Spells.expect.holding.last fun _ => .pure _

theorem spells_assignStatement (fuel : Nat) :
    Spells K (assignStatement fuel) (words .assignment * punct .semicolon) :=
  (spells_assignment fuel).bind fun _ => Spells.expect.holding.last fun _ => .pure _

theorem spells_statementOver {statement : Parse Stmt}
    (hstatement : Spells Anywhere statement (words .statement)) (fuel : Nat) :
    Spells Anywhere (statementOver fuel statement) (words .statement) := by
  have hsimple : simple ≤ words .statement := by
    rw [words_statement]
    exact le_add_self
  refine .next fun t _ => ?_
  split
  · rename_i hk
    rw [hk, words_statement]
    refine ((Spells.advance (by simp)).bind fun _ => spells_branch hstatement fuel _).le ?_
    exact le_self_add.trans <| le_self_add.trans le_self_add
  · rename_i hk
    rw [hk, words_statement]
    refine ((Spells.advance (by simp)).bind fun _ => spells_whileLoop hstatement fuel _).le ?_
    exact le_add_self.trans <| le_self_add.trans le_self_add
  · rename_i hk
    rw [hk, words_statement]
    refine ((Spells.advance (by simp)).bind fun _ => spells_forLoop hstatement fuel _).le ?_
    exact le_add_self.trans le_self_add
  · rename_i hk
    rw [hk]
    refine ((Spells.advance (by simp)).bind fun _ => spells_ret fuel _).le (le_trans ?_ hsimple)
    exact le_self_add.trans <| le_self_add.trans <| le_self_add.trans le_self_add
  · rename_i hk
    rw [hk]
    refine ((Spells.advance (by simp)).bind fun _ => spells_block hstatement fuel).le
      (le_trans ?_ hsimple)
    exact le_add_self.trans le_self_add
  · rename_i hk
    rw [hk]
    refine ((Spells.advance (by simp)).last fun _ => .pure _).le (le_trans ?_ hsimple)
    exact le_add_self
  · refine .kindBehind fun k => ?_
    split
    · refine (spells_callStatement fuel).le (le_trans ?_ hsimple)
      exact le_add_self.trans <| le_self_add.trans le_self_add
    · refine (spells_assignStatement fuel).le (le_trans ?_ hsimple)
      exact le_add_self.trans <| le_self_add.trans <| le_self_add.trans le_self_add
  · exact .fail

/-- Whatever is read as a statement is one. -/
theorem spells_statement (fuel : Nat) :
    Spells Anywhere (statement fuel) (words .statement) := by
  induction fuel with
  | zero => exact .fail
  | succ fuel ih => exact spells_statementOver ih fuel

/-! ## Declarations -/

theorem spells_typeWord : Spells K typeWord (words .base) := by
  rw [words_base]
  refine .kind fun k _ => ?_
  split
  · rename_i spec _
    refine ((Spells.advance (by simp)).last fun _ => .pure _).le (letter_le ?_)
    cases spec <;> simp [bases]
  · exact .fail

theorem spells_declarator (name : String) (span : Span) :
    Spells Anywhere (declarator name span) size := by
  refine .accept (by simp) ?_ (.pure _)
  refine (Spells.require (by simp)).bind fun _ => Spells.expect.last fun _ => ?_
  exact .spanFrom fun _ => .pure _

/-- The variables of a declaration behind its first name. -/
theorem spells_declarators (fuel : Nat) (name : String) (span : Span) :
    Spells Anywhere (declarators fuel name span)
      (size * ((punct .comma * words .variable)∗ * punct .semicolon)) := by
  refine (spells_declarator name span).bind fun first => Spells.bind (.holding ?_) fun others => ?_
  · refine Spells.le (.accept (by simp) (.commaSeparated (l := words .variable) ?_ _ _)
      (.pure _)) ?_
    · rw [words_variable]
      exact Spells.name.bind fun name => spells_declarator name.1 name.2
    · rw [← mul_assoc, add_comm]
      exact (Language.one_add_self_mul_kstar_eq_kstar _).le
  · exact Spells.expect.holding.last fun _ => .pure _

theorem spells_param : Spells Anywhere param parameter := by
  refine spells_typeWord.bind fun spec => Spells.name.bind fun name => ?_
  exact .acceptThen (by simp) (Spells.expect.last fun _ => .pure _) (.pure _)

theorem spells_parameters (fuel : Nat) : Spells Anywhere (parameters fuel)
    (punct .leftParen * (words .parameters * punct .rightParen)) := by
  have hclose : ∀ params : List Param, Spells Anywhere (do
      expect .rightParen .parameters
      return params) (punct .rightParen) := fun params => Spells.expect.last fun _ => .pure _
  rw [words_parameters]
  refine Spells.expect.bind fun _ => .kind fun k _ => .kindBehind fun behind => ?_
  dsimp only
  split
  · rename_i hk
    rw [hk.1]
    refine ((Spells.advance (by simp)).bind fun _ => ?_).le
      (mul_le_mul' (le_add_self.trans le_self_add) le_rfl)
    exact (Spells.pure _).bind hclose |>.le (by rw [one_mul])
  · split
    · refine ((Spells.pure _).bind hclose).le (mul_le_mul' ?_ le_rfl)
      exact le_self_add.trans le_self_add
    · refine ((spells_param.commaSeparated _ _).bind hclose).le (mul_le_mul' ?_ le_rfl)
      exact le_add_self

theorem spells_prototype (fuel : Nat) : Spells Anywhere (prototype fuel) header :=
  Spells.name.bind fun _ => (spells_parameters fuel).last fun _ => .pure _

theorem spells_prototypes (fuel : Nat) : Spells Anywhere (prototypes fuel)
    ((punct .comma * header)∗ * punct .semicolon) := by
  have hend : ∀ others : List Item, Spells Anywhere (do
      holding others (expect .semicolon .prototype)
      return others ++ [.endPrototypes]) (punct .semicolon) :=
    fun others => Spells.expect.holding.last fun _ => .pure _
  have hmore := ((spells_prototype fuel).commaSeparated (fun items => items) fuel).known.map
    (K := Anywhere) (g := List.flatten)
  refine Spells.le (.accept (by simp) (hmore.bind hend) ((Spells.pure _).bind hend)) ?_
  rw [← mul_assoc, ← add_mul, ← mul_assoc, add_comm]
  exact mul_le_mul' (Language.one_add_self_mul_kstar_eq_kstar _).le le_rfl

theorem spells_locals (bound fuel : Nat) :
    Spells Anywhere (locals bound fuel) (words .base * variableList)∗ := by
  induction fuel with
  | zero => exact (Spells.pure _).le one_le_kstar
  | succ fuel ih =>
      refine .kind fun k _ => ?_
      split
      · refine Spells.le (spells_typeWord.bind fun spec => Spells.name.bind fun name =>
          (spells_declarators bound _ _).holding.bind fun declared => ih.holding.last fun _ =>
            .pure _) ?_
        rw [← mul_assoc (letter _), ← variableList_eq, ← mul_assoc]
        exact mul_kstar_le_kstar
      · exact (Spells.pure _).le one_le_kstar

theorem spells_functionBody (fuel : Nat) : Spells Anywhere (functionBody fuel)
    (punct .leftBrace * (body * punct .rightBrace)) := by
  unfold body
  rw [mul_assoc]
  refine Spells.expect.bind fun _ => (spells_locals fuel fuel).bind fun declared => .holding ?_
  refine (spells_statements (spells_statement fuel) fuel).bind fun body => .next fun closing _ => ?_
  exact Spells.expect.holding.last fun _ => .pure _

theorem spells_afterHeader_external (fuel : Nat) (header : Item) :
    Spells Anywhere (afterHeader fuel true header)
      ((punct .comma * Sentence.header)∗ * punct .semicolon) := by
  refine .kind fun k _ => ?_
  exact ((spells_prototypes fuel).holding.last fun _ => .pure _).known

theorem spells_afterHeader (fuel : Nat) (header : Item) :
    Spells Anywhere (afterHeader fuel false header)
      (punct .leftBrace * (body * punct .rightBrace) +
        (punct .comma * Sentence.header)∗ * punct .semicolon) := by
  refine .kind fun k _ => ?_
  split
  · exact (((spells_functionBody fuel).holding.last fun _ => .pure _).le le_self_add).known
  · exact (((spells_prototypes fuel).holding.last fun _ => .pure _).le le_add_self).known

/-- Whatever is read as a declaration is one. -/
theorem spells_declaration (fuel : Nat) :
    Spells Anywhere (declaration fuel) (words .declaration) := by
  have hprototypes : words .base * (letter .identifier *
      (punct .leftParen * (words .parameters * punct .rightParen) *
        ((punct .comma * header)∗ * punct .semicolon))) =
      words .base * (list header * punct .semicolon) := by
    simp only [list, header, mul_assoc]
  have hdefinition : words .base * (letter .identifier *
      (punct .leftParen * (words .parameters * punct .rightParen) *
        (punct .leftBrace * (body * punct .rightBrace)))) =
      words .base * (header * (punct .leftBrace * (body * punct .rightBrace))) := by
    simp only [header, mul_assoc]
  refine Spells.le (.acceptThen (l := words .base * (list header * punct .semicolon))
    (m := words .base * variableList + words .base * (list header * punct .semicolon) +
      words .base * (header * (punct .leftBrace * (body * punct .rightBrace)))) (by simp) ?_ ?_)
    (le_trans ?_ words_declaration.ge)
  · rw [← hprototypes]
    refine spells_typeWord.bind fun spec => Spells.name.bind fun name => .holding ?_
    refine .kind fun k _ => ?_
    split
    · refine ((spells_parameters fuel).bind fun params => ?_).known
      exact (spells_afterHeader_external fuel _).last fun _ => .pure _
    · exact .fail
  · rw [← hprototypes, ← hdefinition, variableList_eq, ← mul_add, ← mul_add, ← mul_add,
      ← mul_add, add_assoc, ← mul_add]
    refine spells_typeWord.bind fun spec => Spells.name.bind fun name => .holding ?_
    refine .kind fun k _ => ?_
    split
    · refine Spells.le ((spells_parameters fuel).bind fun params => ?_).known le_add_self
      rw [add_comm]
      exact (spells_afterHeader fuel _).last fun _ => .pure _
    · exact (((spells_declarators fuel _ _).last fun _ => .pure _).le le_self_add).known
  · rw [add_mul, one_mul, add_assoc (words .base * variableList), add_left_comm,
      add_assoc (words .base * variableList), add_assoc (keyword .external * _)]

/-! ## Programs -/

/-- A declaration begins with `extern` or a base type. -/
theorem first_declaration {w : List Kind} (hw : w ∈ words .declaration) :
    ∃ k v, w = k :: v ∧ (k = .keyword .external ∨ k ∈ bases) := by
  rw [words_declaration, words_base, Language.mem_add, Language.mem_add, add_mul, one_mul,
    Language.mem_add] at hw
  rcases hw with (hw | hw | hw) | hw
  · obtain ⟨k, hk, v, -, rfl⟩ := mem_letters_mul.1 hw
    exact ⟨k, v, rfl, .inr hk⟩
  · obtain ⟨v, -, rfl⟩ := mem_letter_mul.1 hw
    exact ⟨_, v, rfl, .inl rfl⟩
  · obtain ⟨k, hk, v, -, rfl⟩ := mem_letters_mul.1 hw
    exact ⟨k, v, rfl, .inr hk⟩
  · obtain ⟨k, hk, v, -, rfl⟩ := mem_letters_mul.1 hw
    exact ⟨k, v, rfl, .inr hk⟩

/-- **A program that is read to its end is a sentence.** The fuel covers the tokens that are left,
since every declaration reads one. -/
theorem spells_program {bound fuel : Nat} {c c' : Cursor} {items : List Item}
    (hstop : c.stop.kind = .endOfFile) (hfree : .endOfFile ∉ c.kinds)
    (hfuel : c.kinds.length ≤ fuel) (hr : Reads (program bound fuel) c items c') :
    c.kinds ∈ words .program := by
  rw [words_program]
  induction fuel generalizing c c' items with
  | zero =>
      rw [List.eq_nil_of_length_eq_zero (Nat.le_zero.1 hfuel)]
      exact Language.nil_mem_kstar _
  | succ fuel ih =>
      obtain ⟨k, c₁, hk, hr⟩ := reads_bind.1 hr
      obtain ⟨rfl, rfl⟩ := reads_kind.1 hk
      rw [c₁.kind_next hstop] at hr
      split at hr
      · rename_i hend
        cases hkinds : c₁.kinds with
        | nil => exact Language.nil_mem_kstar _
        | cons k rest =>
            rw [hkinds] at hend hfree
            exact absurd (List.mem_cons.2 (.inl hend.symm)) hfree
      · obtain ⟨first, c₂, hfirst, hr⟩ := reads_bind.1 hr
        obtain ⟨others, c₃, hothers, -⟩ := reads_bind.1 hr
        obtain ⟨w, hw, hreach⟩ := spells_declaration bound c₁ first c₂ hstop trivial hfirst
        obtain ⟨k, v, rfl, -⟩ := first_declaration hw
        have hlen : c₁.kinds.length = v.length + 1 + c₂.kinds.length := by
          rw [hreach.kinds, List.length_append, List.length_cons]
        have hrest := ih (by rw [hreach.stop, hstop])
          (fun hmem => hfree (by rw [hreach.kinds]; exact List.mem_append_right _ hmem))
          (by omega) (reads_holding.1 hothers)
        rw [hreach.kinds]
        exact more_mem_kstar hw hrest

end Grammar

end Cmm
