import Cmm.Grammar.Statement
import Cmm.Proofs.Sentence.Expressions

/-!
# Statements are read

The productions leave open to which `if` an `else` belongs. The parser gives it to the nearest one,
and every statement can be taken apart that way.

* `IsStatement` — the statements with each `else` at the nearest `if`. A statement is open where an
  `else` behind it would be taken into it.
* `IsStatement.attach` — an `else` behind an open statement; `isStatement_of_mem` brings every
  statement into this form with it.
* `takes_statement` — every statement is read, in front of anything but an `else` where it is open.
-/

set_option autoImplicit false

namespace Cmm

namespace Sentence

open Ebnf Computability

/-- Statements with every `else` at the nearest `if`. The flag marks the open ones. -/
inductive IsStatement : Bool → List Kind → Prop
  | simple {w : List Kind} (simple : w ∈ simple) : IsStatement false w
  | branch {b : Bool} {u v : List Kind} (test : u ∈ condition) (thenPart : IsStatement b v) :
      IsStatement true (.keyword .ifWord :: (u ++ v))
  | branchElse {b : Bool} {u v v' : List Kind} (test : u ∈ condition)
      (thenPart : IsStatement false v) (elsePart : IsStatement b v') :
      IsStatement b (.keyword .ifWord :: (u ++ (v ++ .keyword .elseWord :: v')))
  | whileLoop {b : Bool} {u v : List Kind} (test : u ∈ condition) (body : IsStatement b v) :
      IsStatement b (.keyword .whileWord :: (u ++ v))
  | forLoop {b : Bool} {u v : List Kind} (clauses : u ∈ clauses) (body : IsStatement b v) :
      IsStatement b (.keyword .forWord :: (u ++ v))

variable {b : Bool} {u v w k : List Kind}

/-- An `else` behind an open statement is taken into it. -/
theorem IsStatement.attach (hu : IsStatement true u) (hv : IsStatement b v) :
    ∃ b', IsStatement b' (u ++ .keyword .elseWord :: v) := by
  generalize hopen : true = opened at hu
  induction hu with
  | simple => cases hopen
  | @branch b' u w test thenPart ih =>
      rw [List.cons_append, List.append_assoc]
      cases b' with
      | false => exact ⟨b, .branchElse test thenPart hv⟩
      | true =>
          obtain ⟨b', h⟩ := ih rfl
          exact ⟨true, .branch test h⟩
  | branchElse test thenPart _ _ ih =>
      obtain ⟨b', h⟩ := ih hopen
      rw [List.cons_append, List.append_assoc, List.append_assoc, List.cons_append]
      exact ⟨b', .branchElse test thenPart h⟩
  | whileLoop test _ ih =>
      obtain ⟨b', h⟩ := ih hopen
      rw [List.cons_append, List.append_assoc]
      exact ⟨b', .whileLoop test h⟩
  | forLoop clauses _ ih =>
      obtain ⟨b', h⟩ := ih hopen
      rw [List.cons_append, List.append_assoc]
      exact ⟨b', .forLoop clauses h⟩

/-- **Every statement can be taken apart with each `else` at the nearest `if`.** -/
theorem isStatement_of_mem (hw : w ∈ words .statement) : ∃ b, IsStatement b w := by
  induction hn : w.length using Nat.strong_induction_on generalizing w with
  | _ n ih =>
      subst hn
      rw [words_statement] at hw
      rcases hw with ((hw | hw) | hw) | hw
      · obtain ⟨_, hrest, rfl⟩ := mem_letter_mul.1 hw
        obtain ⟨u, hu, _, hparts, rfl⟩ := Language.mem_mul.1 hrest
        obtain ⟨v, hv, m, hm, rfl⟩ := Language.mem_mul.1 hparts
        have hlen : v.length < (Kind.keyword .ifWord :: (u ++ (v ++ m))).length := by
          simp only [List.length_cons, List.length_append]
          omega
        obtain ⟨b, thenPart⟩ := ih v.length hlen hv rfl
        rcases hm with hm | rfl
        · obtain ⟨v', hv', rfl⟩ := mem_letter_mul.1 hm
          have hlen' : v'.length <
              (Kind.keyword .ifWord :: (u ++ (v ++ .keyword .elseWord :: v'))).length := by
            simp only [List.length_cons, List.length_append]
            omega
          obtain ⟨b', elsePart⟩ := ih v'.length hlen' hv' rfl
          cases b with
          | false => exact ⟨b', .branchElse hu thenPart elsePart⟩
          | true =>
              -- An `if` inside the first part is nearer.
              obtain ⟨_, attached⟩ := thenPart.attach elsePart
              exact ⟨true, .branch hu attached⟩
        · rw [List.append_nil]
          exact ⟨true, .branch hu thenPart⟩
      · obtain ⟨_, hrest, rfl⟩ := mem_letter_mul.1 hw
        obtain ⟨u, hu, v, hv, rfl⟩ := Language.mem_mul.1 hrest
        have hlen : v.length < (Kind.keyword .whileWord :: (u ++ v)).length := by
          simp only [List.length_cons, List.length_append]
          omega
        obtain ⟨b, body⟩ := ih v.length hlen hv rfl
        exact ⟨b, .whileLoop hu body⟩
      · obtain ⟨_, hrest, rfl⟩ := mem_letter_mul.1 hw
        obtain ⟨u, hu, v, hv, rfl⟩ := Language.mem_mul.1 hrest
        have hlen : v.length < (Kind.keyword .forWord :: (u ++ v)).length := by
          simp only [List.length_cons, List.length_append]
          omega
        obtain ⟨b, body⟩ := ih v.length hlen hv rfl
        exact ⟨b, .forLoop hu body⟩
      · exact ⟨false, .simple hw⟩

/-! ## Where statements begin -/

/-- What can stand in front of a statement. -/
def starters : List Kind :=
  [.identifier, .punct .leftBrace, .punct .semicolon] ++
    [.ifWord, .whileWord, .forWord, .returnWord].map .keyword

/-- The second kind tells an assignment from a call. -/
theorem first_assignment (hw : w ∈ words .assignment) :
    ∃ x v, w = .identifier :: x :: v ∧ x ≠ .punct .leftParen := by
  rw [words_assignment] at hw
  obtain ⟨m, hm, rfl⟩ := mem_letter_mul.1 hw
  obtain ⟨i, hi, e, he, rfl⟩ := Language.mem_mul.1 hm
  rcases hi with hi | rfl
  · obtain ⟨v, -, rfl⟩ := mem_letter_mul.1 hi
    exact ⟨.punct .leftBracket, v ++ e, rfl, by simp⟩
  · obtain ⟨v, -, rfl⟩ := mem_letter_mul.1 he
    exact ⟨.punct .equal, v, rfl, by simp⟩

theorem first_simple (hw : w ∈ simple) : ∃ k v, w = k :: v ∧ k ∈ starters := by
  rcases hw with (((hw | hw) | hw) | hw) | hw
  · obtain ⟨v, -, rfl⟩ := mem_letter_mul.1 hw
    exact ⟨_, v, rfl, by simp [starters]⟩
  · obtain ⟨u, hu, rfl⟩ := mem_mul_letter.1 hw
    obtain ⟨x, v, rfl, -⟩ := first_assignment hu
    exact ⟨_, _, rfl, by simp [starters]⟩
  · obtain ⟨v, -, rfl⟩ := mem_letter_mul.1 hw
    exact ⟨_, v, rfl, by simp [starters]⟩
  · obtain ⟨v, -, rfl⟩ := mem_letter_mul.1 hw
    exact ⟨_, v, rfl, by simp [starters]⟩
  · rw [mem_letter.1 hw]
    exact ⟨_, [], rfl, by simp [starters]⟩

theorem first_statement (hw : w ∈ words .statement) : ∃ k v, w = k :: v ∧ k ∈ starters := by
  obtain ⟨b, hw⟩ := isStatement_of_mem hw
  cases hw with
  | simple hw => exact first_simple hw
  | branch | branchElse | whileLoop | forLoop => exact ⟨_, _, rfl, by simp [starters]⟩

/-- No `else` stands behind a statement of a list. -/
theorem first_statements (hw : w ∈ (words .statement)∗) (hk : Kind.first k = .punct .rightBrace) :
    Kind.first (w ++ k) ≠ .keyword .elseWord := by
  rcases mem_kstar_iff.1 hw with rfl | ⟨u, hu, v, -, rfl⟩
  · rw [List.nil_append, hk]
    simp
  · obtain ⟨x, u', rfl, hx⟩ := first_statement hu
    rintro rfl
    simp [starters] at hx

end Sentence

namespace Grammar

open Parse Ebnf Sentence Computability

variable {b : Bool} {w k : List Kind} {n : Nat}

/-! ## Parts of statements -/

/-- A part that may be missing is told apart from the mark behind it by its first kind. -/
theorem takes_optionalBefore {α : Type} {p : Parse α} {l : Language Kind} {mark : Punct}
    (hw : w ∈ l + 1) (hp : w ∈ l → Takes p w k ∧ Kind.first (w ++ k) ≠ .punct mark)
    (hk : Kind.first k = .punct mark) : Takes (optionalBefore mark p) w k := by
  rcases hw with hw | rfl
  · obtain ⟨htakes, hne⟩ := hp hw
    refine .kind rfl ?_
    rw [if_neg hne]
    exact htakes.last fun a => .pure _
  · refine .kind hk ?_
    rw [if_pos rfl]
    exact .pure none

theorem takes_optional_expression {mark : Punct} (hw : w ∈ words .expression + 1)
    (hn : w.length ≤ n) (hk : Kind.first k = .punct mark) (hmark : .punct mark ∈ closers) :
    Takes (optionalBefore mark (expression n)) w k := by
  refine takes_optionalBefore hw (fun hw => ⟨takes_expression hw hn (hk ▸ hmark), ?_⟩) hk
  obtain ⟨x, v, rfl, hx⟩ := first_expression hw
  rintro rfl
  exact not_mem_closers hx hmark

theorem takes_target (hw : w ∈ letter .identifier * (Sentence.index + 1)) (hn : w.length ≤ n)
    (hk : Kind.first k ≠ .punct .leftBracket) : Takes (target n) w k := by
  obtain ⟨u, hu, rfl⟩ := mem_letter_mul.1 hw
  refine .cons .name fun name => ?_
  rcases hu with hu | rfl
  · obtain ⟨v, hv, rfl⟩ := mem_letter_mul.1 hu
    rw [List.length_cons, List.length_cons] at hn
    refine .accept (by simp) ((takes_index (n := n) ?_ hv (by omega)).last fun i => ?_)
    · exact fun u hu hlen k hk => takes_expression hu hlen hk
    · exact .spanFrom fun _ => .pure _
  · exact .refuse hk (.pure _)

theorem takes_assignment (hw : w ∈ words .assignment) (hn : w.length ≤ n)
    (hk : Kind.first k ∈ closers) : Takes (assignment n) w k := by
  rw [words_assignment, ← mul_assoc] at hw
  obtain ⟨u, hu, v, hv, rfl⟩ := Language.mem_mul.1 hw
  obtain ⟨e, he, rfl⟩ := mem_letter_mul.1 hv
  rw [List.length_append, List.length_cons] at hn
  refine .bind (takes_target hu (by omega) (by simp [Kind.first])) fun place => ?_
  refine Takes.last (.holding ?_) fun value => .spanFrom fun _ => .pure _
  exact .cons .expect fun _ => takes_expression he (by omega) hk

theorem takes_optional_assignment {mark : Punct} (hw : w ∈ words .assignment + 1)
    (hn : w.length ≤ n) (hk : Kind.first k = .punct mark) (hmark : .punct mark ∈ closers) :
    Takes (optionalBefore mark (assignment n)) w k := by
  refine takes_optionalBefore hw (fun hw => ⟨takes_assignment hw hn (hk ▸ hmark), ?_⟩) hk
  obtain ⟨x, v, rfl, -⟩ := first_assignment hw
  simp [Kind.first]

theorem takes_condition {place : Place} (hw : w ∈ Sentence.condition) (hn : w.length ≤ n) :
    Takes (condition n place) w k := by
  obtain ⟨v, hv, rfl⟩ := mem_letter_mul.1 hw
  obtain ⟨u, hu, rfl⟩ := mem_mul_letter.1 hv
  rw [List.length_cons, List.length_append] at hn
  refine .cons .expect fun _ => ?_
  refine .bind (takes_expression hu (by omega) (by simp [closers, Kind.first])) fun test => ?_
  exact .cons Takes.expect.holding fun _ => .pure test

theorem takes_ret {span : Span} (hw : w ∈ (words .expression + 1) * punct .semicolon)
    (hn : w.length ≤ n) : Takes (ret n span) w k := by
  obtain ⟨u, hu, rfl⟩ := mem_mul_letter.1 hw
  rw [List.length_append] at hn
  refine .bind (takes_optional_expression hu (by omega) rfl (by simp [closers])) fun value => ?_
  exact .cons Takes.expect.holding fun _ => .spanFrom fun _ => .pure _

theorem takes_callStatement (hw : w ∈ letter .identifier * (Sentence.arguments * punct .semicolon))
    (hn : w.length ≤ n + 1) : Takes (callStatement n) w k := by
  obtain ⟨v, hv, rfl⟩ := mem_letter_mul.1 hw
  obtain ⟨u, hu, rfl⟩ := mem_mul_letter.1 hv
  rw [List.length_cons, List.length_append] at hn
  refine .cons .name fun name => ?_
  refine .bind (takes_arguments (n := n) ?_ hu (by omega) ?_) fun args => ?_
  · exact fun u hu hlen k hk => takes_expression hu hlen hk
  · rw [List.length_singleton] at hn
    omega
  · exact .spanFrom fun span => .cons Takes.expect.holding fun _ => .pure _

theorem takes_assignStatement (hw : w ∈ words .assignment * punct .semicolon)
    (hn : w.length ≤ n + 1) : Takes (assignStatement n) w k := by
  obtain ⟨u, hu, rfl⟩ := mem_mul_letter.1 hw
  rw [List.length_append, List.length_singleton] at hn
  refine .bind (takes_assignment hu (by omega) (by simp [closers, Kind.first])) fun a => ?_
  exact .cons Takes.expect.holding fun _ => .pure _

/-! ## Statements over the statements inside them -/

section

variable {statement : Parse Stmt} {u v : List Kind}
  (hstatement : ∀ b u k, IsStatement b u → u.length ≤ n →
    (b = true → Kind.first k ≠ .keyword .elseWord) → Takes statement u k)

include hstatement

theorem takes_branch {span : Span} (hu : u ∈ Sentence.condition) (hv : IsStatement b v)
    (hn : (u ++ v).length ≤ n) (hk : Kind.first k ≠ .keyword .elseWord) :
    Takes (branch n statement span) (u ++ v) k := by
  rw [List.length_append] at hn
  refine .bind (takes_condition hu (by omega)) fun test => .holding ?_
  refine .last (hstatement b v k hv (by omega) fun _ => hk) fun thenPart => ?_
  exact .refuse hk (.spanFrom fun _ => .pure _)

theorem takes_branchElse {span : Span} {v' : List Kind} (hu : u ∈ Sentence.condition)
    (hv : IsStatement false v) (hv' : IsStatement b v')
    (hn : (u ++ (v ++ .keyword .elseWord :: v')).length ≤ n)
    (hk : b = true → Kind.first k ≠ .keyword .elseWord) :
    Takes (branch n statement span) (u ++ (v ++ .keyword .elseWord :: v')) k := by
  rw [List.length_append, List.length_append, List.length_cons] at hn
  refine .bind (takes_condition hu (by omega)) fun test => .holding ?_
  refine .bind (hstatement false v _ hv (by omega) nofun) fun thenPart => ?_
  refine .accept (by simp) ?_
  refine Takes.last (.holding (hstatement b v' k hv' (by omega) hk)) fun elsePart => ?_
  exact .spanFrom fun _ => .pure _

theorem takes_whileLoop {span : Span} (hu : u ∈ Sentence.condition) (hv : IsStatement b v)
    (hn : (u ++ v).length ≤ n) (hk : b = true → Kind.first k ≠ .keyword .elseWord) :
    Takes (whileLoop n statement span) (u ++ v) k := by
  rw [List.length_append] at hn
  refine .bind (takes_condition hu (by omega)) fun test => ?_
  refine Takes.last (.holding (hstatement b v k hv (by omega) hk)) fun body => ?_
  exact .spanFrom fun _ => .pure _

theorem takes_forLoop {span : Span} (hu : u ∈ clauses) (hv : IsStatement b v)
    (hn : (u ++ v).length ≤ n) (hk : b = true → Kind.first k ≠ .keyword .elseWord) :
    Takes (forLoop n statement span) (u ++ v) k := by
  obtain ⟨_, hparts, rfl⟩ := mem_letter_mul.1 hu
  obtain ⟨start, hstart, _, hparts', rfl⟩ := Language.mem_mul.1 hparts
  obtain ⟨_, hbehind, rfl⟩ := mem_letter_mul.1 hparts'
  obtain ⟨test, htest, _, hbehind', rfl⟩ := Language.mem_mul.1 hbehind
  obtain ⟨_, hlast, rfl⟩ := mem_letter_mul.1 hbehind'
  obtain ⟨update, hupdate, rfl⟩ := mem_mul_letter.1 hlast
  simp only [List.cons_append, List.append_assoc, List.nil_append, List.length_cons,
    List.length_append] at hn ⊢
  refine .cons .expect fun _ => ?_
  refine .bind (takes_optional_assignment hstart (by omega) rfl (by simp [closers])) fun s => ?_
  refine .holding (.cons .expect fun _ => ?_)
  refine .bind (takes_optional_expression htest (by omega) rfl (by simp [closers])) fun t => ?_
  refine .holding (.cons .expect fun _ => ?_)
  refine .bind (takes_optional_assignment hupdate (by omega) rfl (by simp [closers])) fun r => ?_
  refine .holding (.cons .expect fun _ => ?_)
  exact (hstatement b v k hv (by omega) hk).last fun body => .spanFrom fun _ => .pure _

/-- The statements in front of a closing brace. -/
theorem takes_statements {fuel : Nat} (hw : w ∈ (words .statement)∗) (hn : w.length ≤ n)
    (hfuel : w.length ≤ fuel) (hk : Kind.first k = .punct .rightBrace) :
    Takes (statements statement fuel) w k := by
  induction fuel generalizing w with
  | zero =>
      rw [List.eq_nil_of_length_eq_zero (Nat.le_zero.1 hfuel)]
      exact .pure []
  | succ fuel ih =>
      rcases mem_kstar_iff.1 hw with rfl | ⟨u, hu, v, hv, rfl⟩
      · refine .kind hk ?_
        rw [if_pos (.inl rfl)]
        exact .pure []
      · obtain ⟨b, hu'⟩ := isStatement_of_mem hu
        obtain ⟨x, u', rfl, hx⟩ := first_statement hu
        have hne : ¬(x = .punct .rightBrace ∨ x = .endOfFile) := by
          rintro (rfl | rfl) <;> simp [starters] at hx
        rw [List.length_append, List.length_cons] at hn hfuel
        refine .kind rfl ?_
        rw [show Kind.first _ = x from rfl, if_neg hne]
        refine .bind (hstatement b _ _ hu' ?_ fun _ => first_statements hv hk) fun s => ?_
        · rw [List.length_cons]
          omega
        · exact (ih hv (by omega) (by omega)).holding.last fun _ => .pure _

theorem takes_block (hw : w ∈ (words .statement)∗ * punct .rightBrace) (hn : w.length ≤ n) :
    Takes (block n statement) w k := by
  obtain ⟨u, hu, rfl⟩ := mem_mul_letter.1 hw
  rw [List.length_append] at hn
  refine .bind (takes_statements hstatement hu (by omega) (by omega) rfl) fun body => ?_
  exact .cons Takes.expect.holding fun _ => .pure _

theorem takes_simple (hw : w ∈ simple) (hn : w.length ≤ n + 1) :
    Takes (statementOver n statement) w k := by
  rcases hw with (((hw | hw) | hw) | hw) | hw
  · obtain ⟨v, hv, rfl⟩ := mem_letter_mul.1 hw
    rw [List.length_cons] at hn
    refine .next rfl fun t ht => ?_
    rw [ht]
    exact .cons (.advance (by simp)) fun _ => takes_ret hv (by omega)
  · obtain ⟨u, hu, rfl⟩ := mem_mul_letter.1 hw
    obtain ⟨x, v, rfl, hx⟩ := first_assignment hu
    refine .next rfl fun t ht => ?_
    rw [ht]
    refine .kindBehind rfl ?_
    rw [show Kind.second _ = x from rfl, if_neg hx]
    exact takes_assignStatement hw hn
  · obtain ⟨v, hv, rfl⟩ := mem_letter_mul.1 hw
    obtain ⟨u, hu, rfl⟩ := mem_mul_letter.1 hv
    obtain ⟨u', -, rfl⟩ := mem_letter_mul.1 hu
    refine .next rfl fun t ht => ?_
    rw [ht]
    refine .kindBehind rfl ?_
    rw [show Kind.second _ = Kind.punct .leftParen from rfl, if_pos rfl]
    exact takes_callStatement hw hn
  · obtain ⟨v, hv, rfl⟩ := mem_letter_mul.1 hw
    rw [List.length_cons] at hn
    refine .next rfl fun t ht => ?_
    rw [ht]
    exact .cons (.advance (by simp)) fun _ => takes_block hstatement hv (by omega)
  · rw [mem_letter.1 hw]
    refine .next rfl fun t ht => ?_
    rw [ht]
    exact .cons (.advance (by simp)) fun _ => .pure _

theorem takes_statementOver (hw : IsStatement b w) (hn : w.length ≤ n + 1)
    (hk : b = true → Kind.first k ≠ .keyword .elseWord) :
    Takes (statementOver n statement) w k := by
  cases hw with
  | simple hw => exact takes_simple hstatement hw hn
  | branch test thenPart =>
      rw [List.length_cons] at hn
      refine .next rfl fun t ht => ?_
      rw [ht]
      refine .cons (.advance (by simp)) fun _ => ?_
      exact takes_branch hstatement test thenPart (by omega) (hk rfl)
  | branchElse test thenPart elsePart =>
      rw [List.length_cons] at hn
      refine .next rfl fun t ht => ?_
      rw [ht]
      refine .cons (.advance (by simp)) fun _ => ?_
      exact takes_branchElse hstatement test thenPart elsePart (by omega) hk
  | whileLoop test body =>
      rw [List.length_cons] at hn
      refine .next rfl fun t ht => ?_
      rw [ht]
      refine .cons (.advance (by simp)) fun _ => ?_
      exact takes_whileLoop hstatement test body (by omega) hk
  | forLoop clauses body =>
      rw [List.length_cons] at hn
      refine .next rfl fun t ht => ?_
      rw [ht]
      refine .cons (.advance (by simp)) fun _ => ?_
      exact takes_forLoop hstatement clauses body (by omega) hk

end

/-- **Every statement is read up to its end.** Behind an open one no `else` may stand. -/
theorem takes_statement (hw : IsStatement b w) (hn : w.length ≤ n)
    (hk : b = true → Kind.first k ≠ .keyword .elseWord) : Takes (statement n) w k := by
  induction n generalizing b w k with
  | zero =>
      rw [List.eq_nil_of_length_eq_zero (Nat.le_zero.1 hn)] at hw
      cases hw with
      | simple hw =>
          obtain ⟨x, v, heq, -⟩ := first_simple hw
          cases heq
  | succ n ih => exact takes_statementOver (fun b u k hu hlen hk => ih hu hlen hk) hw hn hk

end Grammar

end Cmm
