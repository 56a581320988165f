import Cmm.Proofs.Printing.Gets
import Cmm.Proofs.Sentence.Expressions

/-!
# Expressions are read as they are written

The grammar that the parser follows has a level for every tier, one for unary operators and one for
operands. An expression with parentheses wherever a part would bind too loosely is read back from
its words.

* `Spelling` — the choice of a lexeme for every constant; `Expr.words` writes an expression out.
* `Tier.rank`, `Expr.Stands` — an expression can stand at a level without parentheses around it.
  Left operands stand at the level of their operator and right ones at the next, so operators of one
  tier associate to the left.
* `Expr.ReadsAt`, `Expr.Continues` — an expression is read by the levels from one on; read by the
  loop of a tier, it is the left operand of whatever follows in that tier.
* `Expr.Stands.reads` — both, by induction on how an expression stands.
* `Expr.Stands.gets_words` — every expression is read back up to places.
-/

set_option autoImplicit false

namespace Cmm

/-! ## Writing expressions -/

/-- The choice of a lexeme for every constant. -/
structure Spelling where
  int : Int → String
  char : UInt8 → String
  string : String → String

/-- The mark of an operator. -/
def BinOp.mark : BinOp → Punct
  | .add => .plus
  | .sub => .minus
  | .mul => .star
  | .div => .slash
  | .eq => .equalEqual
  | .ne => .bangEqual
  | .le => .lessEqual
  | .lt => .less
  | .ge => .greaterEqual
  | .gt => .greater
  | .and => .andAnd
  | .or => .orOr

theorem BinOp.binOp?_mark (op : BinOp) : op.mark.binOp? = some op := by
  cases op <;> rfl

def UnOp.mark : UnOp → Punct
  | .neg => .minus
  | .not => .bang

/-- How tightly the operators of a tier bind. -/
def Tier.rank : Tier → Nat
  | .or => 0
  | .and => 1
  | .equality => 2
  | .comparison => 3
  | .additive => 4
  | .multiplicative => 5

namespace Expr

/-- An expression without places. -/
def unplaced (e : Expr) : Expr := Relabel.unplaced.expr e

@[simp] theorem unplaced_int (lexeme : String) (span : Span) :
    (int lexeme span).unplaced = .int lexeme ⟨0, 0⟩ := rfl

@[simp] theorem unplaced_char (value : UInt8) (span : Span) :
    (char value span).unplaced = .char value ⟨0, 0⟩ := rfl

@[simp] theorem unplaced_string (text : String) (span : Span) :
    (string text span).unplaced = .string text ⟨0, 0⟩ := rfl

@[simp] theorem unplaced_var (name : String) (span : Span) :
    (var name span).unplaced = .var name ⟨0, 0⟩ := rfl

@[simp] theorem unplaced_element (array : String) (index : Expr) (span : Span) :
    (element array index span).unplaced = .element array index.unplaced ⟨0, 0⟩ := rfl

@[simp] theorem unplaced_call (callee : String) (args : List Expr) (span : Span) :
    (call callee args span).unplaced = .call callee (args.map unplaced) ⟨0, 0⟩ := by
  rw [unplaced, Relabel.expr, Relabel.exprs_eq_map]
  rfl

@[simp] theorem unplaced_unary (op : UnOp) (operand : Expr) (mark : Span) :
    (unary op operand mark).unplaced = .unary op operand.unplaced ⟨0, 0⟩ := rfl

@[simp] theorem unplaced_binary (op : BinOp) (left right : Expr) :
    (binary op left right).unplaced = .binary op left.unplaced right.unplaced := rfl

@[simp] theorem unplaced_paren (inner : Expr) (span : Span) :
    (paren inner span).unplaced = .paren inner.unplaced ⟨0, 0⟩ := rfl

mutual

/-- The words of an expression, with the parentheses that it has. -/
def words (s : Spelling) : Expr → List Word
  | .int lexeme _ => [(.intLiteral, lexeme)]
  | .char value _ => [(.charLiteral, s.char value)]
  | .string text _ => [(.stringLiteral, s.string text)]
  | .var name _ => [(.identifier, name)]
  | .element array index _ =>
    (.identifier, array) :: Punct.leftBracket.word :: (index.words s ++ [Punct.rightBracket.word])
  | .call callee args _ =>
    (.identifier, callee) :: Punct.leftParen.word ::
      (Word.commaJoined (wordsAll s args) ++ [Punct.rightParen.word])
  | .unary op operand _ => op.mark.word :: operand.words s
  | .binary op left right => left.words s ++ op.mark.word :: right.words s
  | .paren inner _ => Punct.leftParen.word :: (inner.words s ++ [Punct.rightParen.word])

/-- The words of several expressions. -/
def wordsAll (s : Spelling) : List Expr → List (List Word)
  | [] => []
  | e :: rest => e.words s :: wordsAll s rest

end

theorem wordsAll_eq_map (s : Spelling) (es : List Expr) : wordsAll s es = es.map (words s) := by
  induction es with
  | nil => rfl
  | cons e rest ih => rw [wordsAll, ih, List.map_cons]

/-- An expression can stand at a level without parentheses around it, and its parts at theirs. Unary
operators have level 6, and operands stand anywhere. Constants have lexemes that mean them. -/
inductive Stands (s : Spelling) : Nat → Expr → Prop
  | int {level : Nat} (lexeme : String) (span : Span) : Stands s level (.int lexeme span)
  | char {level : Nat} {value : UInt8} (span : Span)
      (spelled : Grammar.charValue (s.char value) = value) : Stands s level (.char value span)
  | string {level : Nat} {text : String} (span : Span)
      (spelled : Grammar.stringText (s.string text) = text) : Stands s level (.string text span)
  | var {level : Nat} (name : String) (span : Span) : Stands s level (.var name span)
  | element {level : Nat} {index : Expr} (array : String) (span : Span)
      (inside : Stands s 0 index) : Stands s level (.element array index span)
  | call {level : Nat} {args : List Expr} (callee : String) (span : Span)
      (inside : ∀ arg ∈ args, Stands s 0 arg) : Stands s level (.call callee args span)
  | unary {level : Nat} {operand : Expr} (op : UnOp) (mark : Span) (fits : level ≤ 6)
      (behind : Stands s 6 operand) : Stands s level (.unary op operand mark)
  | binary {level : Nat} {op : BinOp} {left right : Expr} (fits : level ≤ op.tier.rank)
      (before : Stands s op.tier.rank left) (behind : Stands s (op.tier.rank + 1) right) :
      Stands s level (.binary op left right)
  | paren {level : Nat} {inner : Expr} (span : Span) (inside : Stands s 0 inner) :
      Stands s level (.paren inner span)

end Expr

/-! ## Levels -/

namespace Grammar

open Parse Sentence

/-- The operands with the operators of some tiers between them. -/
def levels (tiers : List Tier) (fuel : Nat) : Parse Expr := tiers.foldr (level fuel) (operand fuel)

theorem levels_all (fuel : Nat) : levels Tier.all fuel = expression fuel := rfl

end Grammar

namespace Tier

theorem drop_rank (t : Tier) : all.drop t.rank = t :: all.drop (t.rank + 1) := by
  cases t <;> rfl

theorem not_mem_drop_rank (t : Tier) : t ∉ all.drop (t.rank + 1) := by
  cases t <;> decide

theorem rank_lt (t : Tier) : t.rank < 6 := by
  cases t <;> decide

theorem rank_injective : Function.Injective rank := by
  intro t t' h
  cases t <;> cases t' <;> first | rfl | cases h

theorem exists_rank : ∀ {i : Nat}, i < 6 → ∃ t : Tier, t.rank = i
  | 0, _ => ⟨.or, rfl⟩
  | 1, _ => ⟨.and, rfl⟩
  | 2, _ => ⟨.equality, rfl⟩
  | 3, _ => ⟨.comparison, rfl⟩
  | 4, _ => ⟨.additive, rfl⟩
  | 5, _ => ⟨.multiplicative, rfl⟩

end Tier

namespace Expr

open Parse Sentence Grammar

variable {s : Spelling} {e l r : Expr} {t : Tier} {i : Nat}

/-- The levels from one on read an expression, in front of what ends it there. -/
def ReadsAt (s : Spelling) (i : Nat) (e : Expr) : Prop :=
  ∀ ⦃fuel : Nat⦄ ⦃k : List Kind⦄, (e.words s).length ≤ fuel →
    Ends (Tier.all.drop i) (Kind.first k) →
    Gets (levels (Tier.all.drop i) fuel) (e.words s) k (·.unplaced = e.unplaced)

/-- An expression is read by the loop of a tier as the left operand of the words that follow, if the
loop can go on with these. -/
def Continues (s : Spelling) (t : Tier) (e : Expr) : Prop :=
  ∀ ⦃fuel steps : Nat⦄ ⦃w : List Word⦄ ⦃k : List Kind⦄ ⦃P : Expr → Prop⦄,
    (e.words s).length ≤ fuel → (e.words s ++ w).length ≤ steps →
    Ends (Tier.all.drop (t.rank + 1)) (Kind.first (Word.kinds w ++ k)) →
    (∀ (e' : Expr) (steps' : Nat), e'.unplaced = e.unplaced → w.length ≤ steps' →
      Gets (chain t (levels (Tier.all.drop (t.rank + 1)) fuel) steps' e') w k P) →
    Gets (levels (Tier.all.drop (t.rank + 1)) fuel >>=
      chain t (levels (Tier.all.drop (t.rank + 1)) fuel) steps) (e.words s ++ w) k P

/-- What the next level reads is a left operand of this one. -/
theorem ReadsAt.continues (h : ReadsAt s (t.rank + 1) e) : Continues s t e := by
  intro fuel steps w k P hfuel hsteps hends hgo
  rw [List.length_append] at hsteps
  apply (h hfuel hends).bind
  intro e' he'
  exact hgo e' steps he' (by omega)

/-- The loop of a tier stops in front of what ends it. -/
theorem gets_chain_nil {p : Parse Expr} {steps : Nat} {k : List Kind} {P : Expr → Prop}
    (hends : Ends (Tier.all.drop t.rank) (Kind.first k)) (he : P e) :
    Gets (chain t p steps e) [] k P := by
  cases steps with
  | zero => exact .pure he
  | succ steps =>
      rw [t.drop_rank] at hends
      apply Gets.kind rfl
      rw [Word.kinds_nil, List.nil_append, operatorOf_of_ends hends]
      exact .pure he

/-- What the loop of a tier reads as a left operand it reads on its own, with nothing behind. -/
theorem Continues.readsAt (h : Continues s t e) : ReadsAt s t.rank e := by
  intro fuel k hfuel hends
  have hinner : Ends (Tier.all.drop (t.rank + 1)) (Kind.first (Word.kinds [] ++ k)) := by
    apply hends.imp
    intro t' ht'
    rw [t.drop_rank]
    exact List.mem_cons_of_mem t ht'
  have hlength : (e.words s ++ []).length ≤ fuel := by
    rwa [List.append_nil]
  have hread := h hfuel hlength hinner fun e' steps he' _ => gets_chain_nil hends he'
  rw [List.append_nil] at hread
  rw [t.drop_rank]
  exact hread

/-- What is read at a level is read at every looser one. -/
theorem ReadsAt.down (h : ReadsAt s i e) (hi : i ≤ 6) {j : Nat} (hj : j ≤ i) : ReadsAt s j e := by
  induction hj with
  | refl => exact h
  | step _ ih =>
      obtain ⟨t, rfl⟩ := Tier.exists_rank hi
      exact ih h.continues.readsAt (Nat.le_of_succ_le hi)

/-- The loop of a tier takes a left operand, the operator and the right operand together for the
left operand of what follows. -/
theorem Continues.binary {op : BinOp} (hl : Continues s op.tier l)
    (hr : ReadsAt s (op.tier.rank + 1) r) : Continues s op.tier (.binary op l r) := by
  intro fuel steps w k P hfuel hsteps hends hgo
  rw [words, List.length_append, List.length_cons] at hfuel
  rw [words, List.append_assoc, List.cons_append] at hsteps ⊢
  apply hl (by omega) hsteps
  · exact .of_operator op.binOp?_mark op.tier.not_mem_drop_rank
  · intro l' steps' hl' hsteps'
    rw [List.length_cons, List.length_append] at hsteps'
    cases steps' with
    | zero => omega
    | succ steps' =>
        apply Gets.kind rfl
        rw [show Kind.first _ = Kind.punct op.mark from rfl, operatorOf_of_tier op.binOp?_mark]
        apply Gets.cons Gets.advance
        intro _ _
        apply (hr (by omega) hends).holding.bind
        intro r' hr'
        apply hgo
        · rw [unplaced_binary, unplaced_binary, hl', hr']
        · omega

/-! ## Operands -/

section

variable {expression : Parse Expr} {w : List Word} {k : List Kind} {P : Expr → Prop}

/-- Inside of a phrase, an expression is read in front of a mark that closes it. -/
def ReadsInside (expression : Parse Expr) (w : List Word) (P : Expr → Prop) : Prop :=
  ∀ ⦃k : List Kind⦄, Kind.first k ∈ closers → Gets expression w k P

theorem gets_index (h : ReadsInside expression w P) :
    Gets (Grammar.index expression) (w ++ [Punct.rightBracket.word]) k P := by
  apply Gets.bind
  · apply h
    show Kind.punct .rightBracket ∈ closers
    decide
  · intro index hindex
    exact Gets.closing hindex

theorem gets_parenthesized {span : Span} {Q : Expr → Prop} (h : ReadsInside expression w P)
    (hQ : ∀ inner span, P inner → Q (.paren inner span)) :
    Gets (parenthesized expression span) (w ++ [Punct.rightParen.word]) k Q := by
  apply Gets.bind
  · apply h
    show Kind.punct .rightParen ∈ closers
    decide
  · intro inner hinner
    apply Gets.expect.holding.last
    intro _ _
    apply Gets.spanFrom
    intro span
    exact .pure (hQ inner span hinner)

/-- The arguments of a call end in their parenthesis, whatever follows. -/
theorem gets_arguments {γ : Type} {fuel : Nat} {es : List γ} {words : γ → List Word}
    {V : γ → Expr → Prop} (h : ∀ e ∈ es, ReadsInside expression (words e) (V e))
    (hfirst : ∀ e ∈ es, ∃ x v, words e = x :: v ∧ x.1 ≠ .punct .rightParen)
    (hfuel : es.length ≤ fuel + 1) :
    Gets (Grammar.arguments fuel expression)
      (Punct.leftParen.word :: (Word.commaJoined (es.map words) ++ [Punct.rightParen.word])) k
      (List.Forall₂ V es) := by
  apply Gets.cons Gets.expect
  intro _ _
  cases es with
  | nil =>
      apply Gets.kind (y := .punct .rightParen) rfl
      dsimp only
      rw [if_pos rfl]
      apply Gets.bind (P := List.Forall₂ V []) (.pure .nil)
      intro args hargs
      exact Gets.closing hargs
  | cons e rest =>
      obtain ⟨x, v, hx, hne⟩ := hfirst e List.mem_cons_self
      have hfirst' : Kind.first (Word.kinds
          (Word.commaJoined ((e :: rest).map words) ++ [Punct.rightParen.word]) ++ k) = x.1 := by
        cases rest <;> simp [Word.commaJoined, hx, Kind.first]
      apply Gets.kind hfirst'
      dsimp only
      rw [if_neg hne]
      apply Gets.bind
      · apply Gets.commaSeparated (F := (· ∈ closers))
        · decide
        · exact h
        · exact List.cons_ne_nil _ _
        · exact hfuel
        · show Kind.punct .rightParen ∈ closers
          decide
        · simp [Kind.first, Punct.word]
      · intro args hargs
        exact Gets.closing hargs

/-- What follows a name tells a variable, a subscript and a call apart. -/
theorem gets_variable {fuel : Nat} {name : String} {span : Span} (hk : Ends [] (Kind.first k))
    (hP : P (.var name span)) : Gets (named fuel expression name span) [] k P := by
  have hcall : Kind.first (Word.kinds [] ++ k) ≠ .punct .leftParen := hk.not_arguments
  apply Gets.kind rfl
  rw [if_neg hcall]
  apply Gets.refuse (w := []) hk.not_index
  exact .pure hP

theorem gets_subscript {fuel : Nat} {name : String} {span : Span} {Q : Expr → Prop}
    (h : ReadsInside expression w P) (hQ : ∀ index span, P index → Q (.element name index span)) :
    Gets (named fuel expression name span)
      (Punct.leftBracket.word :: (w ++ [Punct.rightBracket.word])) k Q := by
  apply Gets.kind (y := .punct .leftBracket) rfl
  rw [if_neg (by simp)]
  apply Gets.accept (x := Punct.leftBracket.word)
  apply (gets_index h).last
  intro index hindex
  apply Gets.spanFrom
  intro span
  exact .pure (hQ index span hindex)

theorem gets_call {γ : Type} {fuel : Nat} {name : String} {span : Span} {es : List γ}
    {words : γ → List Word} {V : γ → Expr → Prop} {Q : Expr → Prop}
    (h : ∀ e ∈ es, ReadsInside expression (words e) (V e))
    (hfirst : ∀ e ∈ es, ∃ x v, words e = x :: v ∧ x.1 ≠ .punct .rightParen)
    (hfuel : es.length ≤ fuel + 1)
    (hQ : ∀ args span, List.Forall₂ V es args → Q (.call name args span)) :
    Gets (named fuel expression name span)
      (Punct.leftParen.word :: (Word.commaJoined (es.map words) ++ [Punct.rightParen.word])) k
      Q := by
  apply Gets.kind (y := .punct .leftParen) rfl
  rw [if_pos rfl]
  apply (gets_arguments h hfirst hfuel).last
  intro args hargs
  apply Gets.spanFrom
  intro span
  exact .pure (hQ args span hargs)

end

/-- An operand is read by the operands alone. -/
theorem readsAt_operand {x : Word} {v : List Word} (hx : e.words s = x :: v)
    (h : ∀ {fuel : Nat} {k : List Kind}, v.length ≤ fuel → Ends [] (Kind.first k) →
      Gets (operandOver fuel (operand fuel)) (x :: v) k (·.unplaced = e.unplaced)) :
    ReadsAt s 6 e := by
  intro fuel k hfuel hends
  rw [hx] at hfuel ⊢
  cases fuel with
  | zero => cases hfuel
  | succ fuel => exact h (Nat.le_of_succ_le_succ hfuel) hends

/-- The whole expression is read inside of an operand. -/
theorem ReadsAt.inside (h : ReadsAt s 0 e) {fuel : Nat} (hfuel : (e.words s).length ≤ fuel) :
    ReadsInside (expressionOver fuel (operand fuel)) (e.words s) (·.unplaced = e.unplaced) := by
  intro k hk
  exact h hfuel (.of_closer hk _)

theorem readsAt_int (lexeme : String) (span : Span) : ReadsAt s 6 (.int lexeme span) := by
  apply readsAt_operand rfl
  intro fuel k _ _
  apply Gets.opening fun _ => rfl
  intro span
  exact .pure rfl

theorem readsAt_char {value : UInt8} (span : Span) (spelled : charValue (s.char value) = value) :
    ReadsAt s 6 (.char value span) := by
  apply readsAt_operand rfl
  intro fuel k _ _
  apply Gets.opening fun _ => rfl
  intro span
  apply Gets.pure
  rw [spelled]
  rfl

theorem readsAt_string {text : String} (span : Span)
    (spelled : stringText (s.string text) = text) : ReadsAt s 6 (.string text span) := by
  apply readsAt_operand rfl
  intro fuel k _ _
  apply Gets.opening fun _ => rfl
  intro span
  apply Gets.pure
  rw [spelled]
  rfl

theorem readsAt_var (name : String) (span : Span) : ReadsAt s 6 (.var name span) := by
  apply readsAt_operand rfl
  intro fuel k _ hends
  apply Gets.opening fun _ => rfl
  intro span
  exact gets_variable hends rfl

theorem readsAt_element {index : Expr} (array : String) (span : Span) (h : ReadsAt s 0 index) :
    ReadsAt s 6 (.element array index span) := by
  apply readsAt_operand rfl
  intro fuel k hfuel _
  rw [List.length_cons, List.length_append] at hfuel
  apply Gets.opening fun _ => rfl
  intro span
  apply gets_subscript (h.inside (by omega))
  intro index' span hindex
  simp [hindex]

theorem map_unplaced_of_forall₂ {es es' : List Expr}
    (h : List.Forall₂ (fun e e' : Expr => e'.unplaced = e.unplaced) es es') :
    es'.map unplaced = es.map unplaced := by
  induction h with
  | nil => rfl
  | cons head _ ih => rw [List.map_cons, List.map_cons, head, ih]

theorem readsAt_call {args : List Expr} (callee : String) (span : Span)
    (h : ∀ arg ∈ args, ReadsAt s 0 arg)
    (hfirst : ∀ arg ∈ args, ∃ x v, arg.words s = x :: v ∧ x.1 ≠ .punct .rightParen) :
    ReadsAt s 6 (.call callee args span) := by
  apply readsAt_operand (by rw [words, wordsAll_eq_map])
  intro fuel k hfuel _
  rw [List.length_cons, List.length_append] at hfuel
  apply Gets.opening fun _ => rfl
  intro span
  apply gets_call (V := fun e e' => e'.unplaced = e.unplaced) _ hfirst
  · have := Word.length_le_length_commaJoined (args.map (words s))
    rw [List.length_map] at this
    omega
  · intro args' span hargs
    simp [map_unplaced_of_forall₂ hargs]
  · intro arg harg
    have := Word.length_le_commaJoined (List.mem_map_of_mem (f := words s) harg)
    exact (h arg harg).inside (by omega)

theorem readsAt_unary {operand : Expr} (op : UnOp) (mark : Span) (h : ReadsAt s 6 operand) :
    ReadsAt s 6 (.unary op operand mark) := by
  apply readsAt_operand rfl
  intro fuel k hfuel hends
  have hoperand := h hfuel hends
  cases op
  all_goals
    apply Gets.opening fun _ => rfl
    intro span
    apply hoperand.last
    intro operand' hsame
    apply Gets.pure
    simp [hsame]

theorem readsAt_paren {inner : Expr} (span : Span) (h : ReadsAt s 0 inner) :
    ReadsAt s 6 (.paren inner span) := by
  apply readsAt_operand rfl
  intro fuel k hfuel _
  rw [List.length_append] at hfuel
  apply Gets.opening fun _ => rfl
  intro span
  apply gets_parenthesized (h.inside (by omega))
  intro inner' span hinner
  simp [hinner]

/-! ## Every expression -/

/-- An expression begins with its first operand. -/
theorem Stands.first_words (h : e.Stands s i) : ∃ x v, e.words s = x :: v ∧ x.1 ∈ openers := by
  induction h with
  | int | char | string | var | element | call => exact ⟨_, _, rfl, by simp [openers, constants]⟩
  | unary op mark _ _ _ =>
      refine ⟨_, _, rfl, ?_⟩
      cases op <;> decide
  | binary _ _ _ ih _ =>
      obtain ⟨x, v, hx, hfirst⟩ := ih
      rw [words, hx]
      exact ⟨x, _, rfl, hfirst⟩
  | paren => exact ⟨_, _, rfl, by decide⟩

/-- No expression begins with a mark that can stand behind one. -/
theorem Stands.first_ne (h : e.Stands s i) {mark : Punct} (hmark : .punct mark ∈ closers) :
    ∃ x v, e.words s = x :: v ∧ x.1 ≠ .punct mark := by
  obtain ⟨x, v, hx, hfirst⟩ := h.first_words
  refine ⟨x, v, hx, ?_⟩
  intro heq
  exact not_mem_closers hfirst (heq ▸ hmark)

/-- What the operands read, every level reads. -/
theorem ReadsAt.everywhere (h : ReadsAt s 6 e) (hi : i ≤ 6) :
    ReadsAt s i e ∧ ∀ t : Tier, t.rank = i → Continues s t e := by
  constructor
  · exact h.down (Nat.le_refl 6) hi
  · rintro t rfl
    exact (h.down (Nat.le_refl 6) t.rank_lt).continues

/-- **An expression is read at every level where it stands**, and is a left operand there of what
follows. -/
theorem Stands.reads (h : e.Stands s i) (hi : i ≤ 6) :
    ReadsAt s i e ∧ ∀ t : Tier, t.rank = i → Continues s t e := by
  induction h with
  | int lexeme span => exact (readsAt_int lexeme span).everywhere hi
  | char span spelled => exact (readsAt_char span spelled).everywhere hi
  | string span spelled => exact (readsAt_string span spelled).everywhere hi
  | var name span => exact (readsAt_var name span).everywhere hi
  | element array span _ ih =>
      have hindex := (ih (Nat.zero_le 6)).1
      exact (readsAt_element array span hindex).everywhere hi
  | call callee span inside ih =>
      have hargs := readsAt_call callee span (fun arg harg => (ih arg harg (Nat.zero_le 6)).1)
        fun arg harg => (inside arg harg).first_ne (by decide)
      exact hargs.everywhere hi
  | unary op mark _ _ ih =>
      have hoperand := (ih (Nat.le_refl 6)).1
      exact (readsAt_unary op mark hoperand).everywhere hi
  | @binary level op left right fits _ _ left_ih right_ih =>
      have hleft := (left_ih (Nat.le_of_lt op.tier.rank_lt)).2 op.tier rfl
      have hright := (right_ih op.tier.rank_lt).1
      have hboth := hleft.binary hright
      constructor
      · exact hboth.readsAt.down (Nat.le_of_lt op.tier.rank_lt) fits
      · rintro t rfl
        rcases Nat.eq_or_lt_of_le fits with hsame | hlooser
        · rw [Tier.rank_injective hsame]
          exact hboth
        · exact (hboth.readsAt.down (Nat.le_of_lt op.tier.rank_lt) hlooser).continues
  | paren span _ ih =>
      have hinner := (ih (Nat.zero_le 6)).1
      exact (readsAt_paren span hinner).everywhere hi

/-- **Every expression is read back from its words**, up to places. -/
theorem Stands.gets_words (h : e.Stands s 0) {fuel : Nat} {k : List Kind}
    (hfuel : (e.words s).length ≤ fuel) (hk : Ends Tier.all (Kind.first k)) :
    Gets (Grammar.expression fuel) (e.words s) k (·.unplaced = e.unplaced) := by
  rw [← levels_all]
  exact (h.reads (Nat.zero_le 6)).1 hfuel hk

end Expr

end Cmm
