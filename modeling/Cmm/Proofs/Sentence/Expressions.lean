import Cmm.Grammar.Expression
import Cmm.Proofs.Sentence.Productions
import Cmm.Proofs.Words

/-!
# Expressions are read

The productions leave open how an expression is taken apart. It is a chain of operands with binary
operators between them in one way only, and the parser splits such a chain tier by tier.

* `IsOperand`, `Chain` — the chains, for the operators of some tiers; `chain_of_expression` turns
  every expression into one.
* `Chain.split` — a chain is one of the tighter tiers, or has a first operator of the loosest.
* `takes_level`, `takes_expressionOver` — a level reads a chain, and so do all of them.
* `takes_expression` — every expression is read in front of a mark that closes it. The fuel is the
  length of the word, since every step inwards leaves a token behind.
-/

set_option autoImplicit false

namespace Cmm

namespace Sentence

open Ebnf Computability

/-! ## Chains of operands -/

/-- An operand: a primary behind any number of unary operators. -/
inductive IsOperand : List Kind → Prop
  | primary {w : List Kind} (primary : w ∈ words .primary) : IsOperand w
  | unary {k : Kind} {w : List Kind} (mark : k ∈ unaryMarks) (operand : IsOperand w) :
      IsOperand (k :: w)

/-- Operands out of `X` with operators of the tiers `ts` between them. -/
inductive Chain (X : List Kind → Prop) (ts : List Tier) : List Kind → Prop
  | one {w : List Kind} (operand : X w) : Chain X ts w
  | more {u v : List Kind} {mark : Punct} {op : BinOp} (operand : X u)
      (operator : mark.binOp? = some op) (tier : op.tier ∈ ts) (rest : Chain X ts v) :
      Chain X ts (u ++ .punct mark :: v)

variable {X Y : List Kind → Prop} {ts : List Tier} {u v w : List Kind}

theorem Chain.append {mark : Punct} {op : BinOp} (hu : Chain X ts u)
    (operator : mark.binOp? = some op) (tier : op.tier ∈ ts) (hv : Chain X ts v) :
    Chain X ts (u ++ .punct mark :: v) := by
  induction hu with
  | one operand => exact .more operand operator tier hv
  | more operand operator' tier' _ ih =>
      rw [List.append_assoc, List.cons_append]
      exact .more operand operator' tier' ih

theorem Chain.imp (h : Chain X ts w) (hXY : ∀ u, u.length ≤ w.length → X u → Y u) :
    Chain Y ts w := by
  induction h with
  | one operand => exact .one (hXY _ le_rfl operand)
  | more operand operator tier _ ih =>
      refine .more (hXY _ ?_ operand) operator tier (ih fun u hu => hXY u ?_)
      · rw [List.length_append]
        omega
      · rw [List.length_append, List.length_cons]
        omega

/-- A chain is one of the other tiers, or its first operator of tier `t` stands behind such a
chain. -/
theorem Chain.split {t : Tier} (h : Chain X (t :: ts) w) : Chain X ts w ∨
    ∃ u mark op v, w = u ++ .punct mark :: v ∧ Chain X ts u ∧ mark.binOp? = some op ∧
      op.tier = t ∧ Chain X (t :: ts) v := by
  induction h with
  | one operand => exact .inl (.one operand)
  | @more u v mark op operand operator tier rest ih =>
      rcases List.mem_cons.1 tier with ht | ht
      · exact .inr ⟨u, mark, op, v, rfl, .one operand, operator, ht, rest⟩
      · rcases ih with hv | ⟨u', mark', op', v', rfl, hu', operator', ht', hv'⟩
        · exact .inl (.more operand operator ht hv)
        · refine .inr ⟨u ++ .punct mark :: u', mark', op', v', ?_, ?_, operator', ht', hv'⟩
          · rw [List.append_assoc, List.cons_append]
          · exact .more operand operator ht hu'

theorem Tier.mem_all (t : Tier) : t ∈ Tier.all := by
  cases t <;> decide

theorem binOp?_of_mem {k : Kind} (hk : k ∈ binaryMarks) :
    ∃ mark op, k = .punct mark ∧ mark.binOp? = some op := by
  obtain ⟨mark, hmark, rfl⟩ := List.mem_map.1 hk
  have hsome : mark.binOp?.isSome = true := by
    simp only [List.mem_cons, List.not_mem_nil, or_false] at hmark
    rcases hmark with rfl | rfl | rfl | rfl | rfl | rfl | rfl | rfl | rfl | rfl | rfl | rfl <;> rfl
  obtain ⟨op, hop⟩ := Option.isSome_iff_exists.1 hsome
  exact ⟨mark, op, rfl, hop⟩

/-- **Every expression is a chain of operands**, however its derivation takes it apart. -/
theorem chain_of_expression (hw : w ∈ words .expression) : Chain IsOperand Tier.all w := by
  induction hn : w.length using Nat.strong_induction_on generalizing w with
  | _ n ih =>
      subst hn
      rw [words_expression, Language.mem_add, Language.mem_add] at hw
      rcases hw with (hw | hw) | hw
      · exact .one (.primary hw)
      · obtain ⟨k, hk, v, hv, rfl⟩ := mem_letters_mul.1 hw
        cases ih v.length (by simp) hv rfl with
        | one operand => exact .one (.unary hk operand)
        | more operand operator tier rest =>
            rw [← List.cons_append]
            exact .more (.unary hk operand) operator tier rest
      · obtain ⟨u, hu, m, hm, rfl⟩ := Language.mem_mul.1 hw
        obtain ⟨k, hk, v, hv, rfl⟩ := mem_letters_mul.1 hm
        obtain ⟨mark, op, rfl, hop⟩ := binOp?_of_mem hk
        have hlen : u.length < (u ++ .punct mark :: v).length ∧
            v.length < (u ++ .punct mark :: v).length := by
          rw [List.length_append, List.length_cons]
          omega
        exact (ih u.length hlen.1 hu rfl).append hop (Tier.mem_all _) (ih v.length hlen.2 hv rfl)

/-! ## Where expressions begin and end -/

/-- The marks that can stand behind an expression. -/
def closers : List Kind := [.rightParen, .rightBracket, .comma, .semicolon].map .punct

/-- What can stand in front of an expression. -/
def openers : List Kind := [.identifier, .punct .leftParen] ++ unaryMarks ++ constants

/-- No expression begins with a mark that can stand behind one. -/
theorem not_mem_closers {k : Kind} (hk : k ∈ openers) : k ∉ closers := by
  have hall : ∀ k ∈ openers, k ∉ closers := by decide
  exact hall k hk

theorem first_operand (h : IsOperand w) : ∃ k v, w = k :: v ∧ k ∈ openers := by
  cases h with
  | primary hw =>
      rw [words_primary_named] at hw
      rcases hw with (hw | hw) | hw
      · obtain ⟨v, -, rfl⟩ := mem_letter_mul.1 hw
        exact ⟨_, v, rfl, by simp [openers]⟩
      · obtain ⟨v, -, rfl⟩ := mem_letter_mul.1 hw
        exact ⟨_, v, rfl, by simp [openers]⟩
      · obtain ⟨t, ht, rfl⟩ := mem_letters.1 hw
        exact ⟨t, [], rfl, List.mem_append_right _ ht⟩
  | @unary k w mark _ =>
      exact ⟨k, w, rfl, List.mem_append_left _ (List.mem_append_right _ mark)⟩

theorem first_expression (hw : w ∈ words .expression) : ∃ k v, w = k :: v ∧ k ∈ openers := by
  cases chain_of_expression hw with
  | one operand => exact first_operand operand
  | more operand _ _ _ =>
      obtain ⟨k, v, rfl, hk⟩ := first_operand operand
      exact ⟨k, _, rfl, hk⟩

/-- What can stand behind a chain with operators of the tiers `ts`. -/
structure Ends (ts : List Tier) (k : Kind) : Prop where
  not_arguments : k ≠ .punct .leftParen
  not_index : k ≠ .punct .leftBracket
  not_operator : ∀ mark op, k = .punct mark → mark.binOp? = some op → op.tier ∉ ts

theorem Ends.of_closer {k : Kind} (hk : k ∈ closers) (ts : List Tier) : Ends ts k := by
  simp only [closers, List.map_cons, List.map_nil, List.mem_cons, List.not_mem_nil, or_false] at hk
  rcases hk with rfl | rfl | rfl | rfl <;>
  · refine ⟨by simp, by simp, ?_⟩
    rintro mark op ⟨⟩ hop
    cases hop

theorem Ends.of_operator {mark : Punct} {op : BinOp} (hop : mark.binOp? = some op)
    (ht : op.tier ∉ ts) : Ends ts (.punct mark) := by
  refine ⟨?_, ?_, ?_⟩
  · rintro ⟨⟩
    cases hop
  · rintro ⟨⟩
    cases hop
  · rintro mark' op' ⟨⟩ hop'
    rw [hop] at hop'
    cases hop'
    exact ht

theorem Ends.imp {ts' : List Tier} {k : Kind} (h : Ends ts k) (hsub : ∀ t ∈ ts', t ∈ ts) :
    Ends ts' k :=
  ⟨h.not_arguments, h.not_index, fun mark op hk hop ht =>
    h.not_operator mark op hk hop (hsub _ ht)⟩

end Sentence

namespace Grammar

open Parse Ebnf Sentence Computability

variable {k : List Kind} {w : List Kind}

/-! ## Levels -/

theorem operatorOf_of_tier {mark : Punct} {op : BinOp} (hop : mark.binOp? = some op) :
    operatorOf op.tier (.punct mark) = some op := by
  rw [operatorOf, hop]
  simp

theorem operatorOf_of_ends {t : Tier} {ts : List Tier} {x : Kind} (h : Ends (t :: ts) x) :
    operatorOf t x = none := by
  cases x with
  | punct mark =>
      rw [operatorOf, Option.filter_eq_none_iff]
      intro op hop heq
      refine h.not_operator mark op rfl hop ?_
      rw [of_decide_eq_true heq]
      exact List.mem_cons_self
  | _ => rfl

section

variable {X : List Kind → Prop} {t : Tier} {ts : List Tier} {p : Parse Expr} {n : Nat}
  (hp : ∀ u k, Chain X ts u → u.length ≤ n → Ends ts (Kind.first k) → Takes p u k) (ht : t ∉ ts)

include hp ht

/-- A chain is the part that the tighter levels read and a tail that the loop of this one reads. -/
theorem takes_chain {fuel : Nat} (hw : Chain X (t :: ts) w) (hn : w.length ≤ n)
    (hfuel : w.length ≤ fuel) (hk : Ends (t :: ts) (Kind.first k)) :
    ∃ u v, w = u ++ v ∧ Takes p u (v ++ k) ∧ ∀ left, Takes (chain t p fuel left) v k := by
  have hk' : Ends ts (Kind.first k) := hk.imp fun _ => List.mem_cons_of_mem t
  induction fuel generalizing w with
  | zero =>
      rw [List.eq_nil_of_length_eq_zero (Nat.le_zero.1 hfuel)] at hw ⊢
      rcases hw.split with hw | ⟨u, mark, op, v, heq, -⟩
      · exact ⟨[], [], rfl, hp [] _ hw (Nat.zero_le n) hk', .pure⟩
      · cases u <;> cases heq
  | succ fuel ih =>
      rcases hw.split with hw | ⟨u, mark, op, v, rfl, hu, hop, rfl, hv⟩
      · refine ⟨w, [], (List.append_nil w).symm, hp w _ hw hn hk', fun left => .kind rfl ?_⟩
        rw [List.nil_append, operatorOf_of_ends hk]
        exact .pure left
      · rw [List.length_append, List.length_cons] at hfuel hn
        obtain ⟨u', v', rfl, hu', hv'⟩ := ih hv (by omega) (by omega)
        refine ⟨u, .punct mark :: (u' ++ v'), rfl, hp u _ hu (by omega) (.of_operator hop ht),
          fun left => .kind rfl ?_⟩
        rw [show Kind.first _ = Kind.punct mark from rfl, operatorOf_of_tier hop]
        exact .cons (.advance (by simp)) fun _ => .bind hu'.holding fun right => hv' _

/-- A level reads the chains of its tier. -/
theorem takes_level {fuel : Nat} (hw : Chain X (t :: ts) w) (hn : w.length ≤ n)
    (hfuel : w.length ≤ fuel) (hk : Ends (t :: ts) (Kind.first k)) :
    Takes (level fuel t p) w k := by
  obtain ⟨u, v, rfl, hu, hv⟩ := takes_chain hp ht hw hn hfuel hk
  exact .bind hu hv

end

/-- All levels together read the chains of all tiers. -/
theorem takes_expressionOver {X : List Kind → Prop} {p : Parse Expr} {fuel : Nat}
    (hp : ∀ u k, X u → Ends [] (Kind.first k) → Takes p u k) (hw : Chain X Tier.all w)
    (hfuel : w.length ≤ fuel) (hk : Ends Tier.all (Kind.first k)) :
    Takes (expressionOver fuel p) w k := by
  unfold expressionOver
  have hdistinct : Tier.all.Nodup := by decide
  generalize Tier.all = ts at hw hk hdistinct
  induction ts generalizing w k with
  | nil =>
      cases hw with
      | one operand => exact hp w k operand hk
      | more _ _ tier _ => cases tier
  | cons t ts ih =>
      obtain ⟨ht, hdistinct⟩ := List.nodup_cons.1 hdistinct
      exact takes_level (fun u k hu hlen hk => ih hlen hu hk hdistinct) ht hw hfuel hfuel hk

/-! ## Operands -/

section

variable {expression : Parse Expr} {n : Nat}
  (hexpression : ∀ u ∈ words .expression, u.length ≤ n → ∀ k, Kind.first k ∈ closers →
    Takes expression u k)

include hexpression

/-- The arguments of a call end in their parenthesis, whatever follows. -/
theorem takes_arguments {fuel : Nat} (hw : w ∈ Sentence.arguments) (hn : w.length ≤ n + 1)
    (hfuel : w.length ≤ fuel) : Takes (Grammar.arguments fuel expression) w k := by
  obtain ⟨v, hv, rfl⟩ := mem_letter_mul.1 hw
  obtain ⟨u, hu, rfl⟩ := mem_mul_letter.1 hv
  rw [List.length_cons, List.length_append] at hn hfuel
  refine .cons .expect fun _ => ?_
  rcases (Language.mem_add _ _ _).1 hu with hu | rfl
  · obtain ⟨x, hx, hfirst⟩ : ∃ x, x ∈ openers ∧ ∀ k, Kind.first (u ++ k) = x := by
      obtain ⟨e, he, others, -, rfl⟩ := Language.mem_mul.1 hu
      obtain ⟨x, v', rfl, hx⟩ := first_expression he
      exact ⟨x, hx, fun k => rfl⟩
    have hne : x ≠ .punct .rightParen := by
      rintro rfl
      exact not_mem_closers hx (by decide)
    refine .kind (by rw [List.append_assoc, hfirst]) ?_
    dsimp only
    rw [if_neg hne]
    refine .bind ?_ fun args => .cons Takes.expect.holding fun _ => .pure args
    exact Takes.commaSeparated (by simp [closers]) hexpression _ hu (by omega) (by omega)
      (by simp [closers, Kind.first]) (by simp [Kind.first])
  · refine .kind (x := .punct .rightParen) rfl ?_
    dsimp only
    rw [if_pos rfl]
    exact .bind (.pure []) fun args => .cons Takes.expect.holding fun _ => .pure args

theorem takes_index (hw : w ∈ words .expression * punct .rightBracket) (hn : w.length ≤ n + 1) :
    Takes (Grammar.index expression) w k := by
  obtain ⟨u, hu, rfl⟩ := mem_mul_letter.1 hw
  rw [List.length_append, List.length_singleton] at hn
  refine .bind (hexpression u hu (by omega) _ (by simp [closers, Kind.first])) fun i => ?_
  exact .cons Takes.expect.holding fun _ => .pure i

theorem takes_parenthesized {span : Span} (hw : w ∈ words .expression * punct .rightParen)
    (hn : w.length ≤ n + 1) : Takes (parenthesized expression span) w k := by
  obtain ⟨u, hu, rfl⟩ := mem_mul_letter.1 hw
  rw [List.length_append, List.length_singleton] at hn
  refine .bind (hexpression u hu (by omega) _ (by simp [closers, Kind.first])) fun inner => ?_
  exact .cons Takes.expect.holding fun _ => .spanFrom fun _ => .pure _

/-- The kind behind a name tells a call, a subscript and a variable apart. -/
theorem takes_named {fuel : Nat} {name : String} {span : Span}
    (hw : w ∈ Sentence.arguments + Sentence.index + 1) (hn : w.length ≤ n + 1)
    (hfuel : w.length ≤ fuel) (hk : Ends [] (Kind.first k)) :
    Takes (named fuel expression name span) w k := by
  rcases (Language.mem_add _ _ _).1 hw with hw | rfl
  · rcases (Language.mem_add _ _ _).1 hw with hw | hw
    · have hfirst : Kind.first (w ++ k) = .punct .leftParen := by
        obtain ⟨v, -, rfl⟩ := mem_letter_mul.1 hw
        rfl
      refine .kind hfirst ?_
      rw [if_pos rfl]
      refine (takes_arguments hexpression hw hn hfuel).last fun args => ?_
      exact .spanFrom fun _ => .pure _
    · obtain ⟨v, hv, rfl⟩ := mem_letter_mul.1 hw
      rw [List.length_cons] at hn
      refine .kind rfl ?_
      rw [if_neg (by simp [Kind.first])]
      refine .accept (by simp) ((takes_index hexpression hv (by omega)).last fun i => ?_)
      exact .spanFrom fun _ => .pure _
  · refine .kind rfl ?_
    rw [List.nil_append, if_neg hk.not_arguments]
    exact .refuse hk.not_index (.pure _)

end

theorem takes_operandOver {operand : Parse Expr} {n : Nat}
    (hoperand : ∀ u k, IsOperand u → u.length ≤ n → Ends [] (Kind.first k) → Takes operand u k)
    (hexpression : ∀ u ∈ words .expression, u.length ≤ n → ∀ k, Kind.first k ∈ closers →
      Takes (expressionOver n operand) u k)
    (hw : IsOperand w) (hn : w.length ≤ n + 1) (hk : Ends [] (Kind.first k)) :
    Takes (operandOver n operand) w k := by
  cases hw with
  | primary hw =>
      rw [words_primary_named] at hw
      rcases hw with (hw | hw) | hw
      · obtain ⟨v, hv, rfl⟩ := mem_letter_mul.1 hw
        rw [List.length_cons] at hn
        refine .next rfl fun t ht => ?_
        rw [ht]
        refine .cons (.advance (by simp)) fun _ => ?_
        exact takes_named hexpression hv (by omega) (by omega) hk
      · obtain ⟨v, hv, rfl⟩ := mem_letter_mul.1 hw
        rw [List.length_cons] at hn
        refine .next rfl fun t ht => ?_
        rw [ht]
        refine .cons (.advance (by simp)) fun _ => ?_
        exact takes_parenthesized hexpression hv (by omega)
      · obtain ⟨x, hx, rfl⟩ := mem_letters.1 hw
        simp only [constants, List.mem_cons, List.not_mem_nil, or_false] at hx
        refine .next rfl fun t ht => ?_
        rw [ht]
        rcases hx with rfl | rfl | rfl <;>
        · exact .cons (.advance (by simp)) fun _ => .pure _
  | @unary x u hmark hu =>
      simp only [unaryMarks, List.mem_cons, List.not_mem_nil, or_false] at hmark
      rw [List.length_cons] at hn
      refine .next rfl fun t ht => ?_
      rw [ht]
      rcases hmark with rfl | rfl <;>
      · refine .cons (.advance (by simp)) fun _ => ?_
        exact (hoperand u k hu (by omega) hk).last fun _ => .pure _

theorem takes_operand {n : Nat} (hw : IsOperand w) (hn : w.length ≤ n)
    (hk : Ends [] (Kind.first k)) : Takes (operand n) w k := by
  induction n generalizing w k with
  | zero =>
      obtain ⟨x, v, rfl, -⟩ := first_operand hw
      cases hn
  | succ n ih =>
      refine takes_operandOver (fun u k hu hlen hk => ih hu hlen hk) ?_ hw hn hk
      intro u hu hlen k hk
      have hchain := (chain_of_expression hu).imp
        (Y := fun v => IsOperand v ∧ v.length ≤ n) fun v hv h => ⟨h, hv.trans hlen⟩
      exact takes_expressionOver (fun v k hv hk => ih hv.1 hv.2 hk) hchain hlen (.of_closer hk _)

/-- **Every expression is read up to its end**, in front of a mark that closes it. -/
theorem takes_expression {n : Nat} (hw : w ∈ words .expression) (hn : w.length ≤ n)
    (hk : Kind.first k ∈ closers) : Takes (expression n) w k := by
  have hchain := (chain_of_expression hw).imp
    (Y := fun v => IsOperand v ∧ v.length ≤ n) fun v hv h => ⟨h, hv.trans hn⟩
  exact takes_expressionOver (fun v k hv hk => takes_operand hv.1 hv.2 hk) hchain hn
    (.of_closer hk _)

end Grammar

end Cmm
