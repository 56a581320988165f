import Cmm.Proofs.Declarations.Readings
import Cmm.Proofs.Globals

/-!
# Declaration lists

* `Token.Listed`, `Token.Apart` — some phrases in one declaration, and in a declaration for each.
* `Grammar.Passes` — a loop of the grammar reads some tokens as certain items and goes on behind
  them.
* `Grammar.program_internal` — between declarations nothing is external.
* `Grammar.declaration_lists_distribute` — phrases in one declaration are read and checked like the
  same phrases in a declaration for each.
-/

set_option autoImplicit false

namespace Cmm

open Parse Token

namespace Parse

variable {α : Type} {p q : Parse (List Item)} {c c' c'' : Cursor} {items items' : List Item}

/-- Some items, and behind them those that a parser reads. -/
def behind (items : List Item) (p : Parse (List Item)) : Parse (List Item) := do
  return items ++ (← holding items p)

theorem behind_apply (items : List Item) (p : Parse (List Item)) (c : Cursor) :
    behind items p c = match p c with
      | .ok r => .ok (items ++ r.1, r.2)
      | .error i => .error { i with complete := items ++ i.complete } := by
  unfold behind
  rw [bind_apply, holding]
  cases p c <;> rfl

theorem behind_append (items items' : List Item) (p : Parse (List Item)) :
    behind (items ++ items') p = behind items (behind items' p) := by
  funext c
  rw [behind_apply, behind_apply, behind_apply]
  cases p c <;> simp

theorem behind_congr (h : p c = q c') : behind items p c = behind items q c' := by
  rw [behind_apply, behind_apply, h]

theorem bind_of_reads {β : Type} {p : Parse α} {f : α → Parse β} {a : α} (h : Reads p c a c') :
    (p >>= f) c = f a c' := by
  rw [bind_apply, h]
  rfl

end Parse

namespace Token

/-- One declaration of some phrases: the opening words, the phrases with commas between them, and
the semicolon. -/
def Listed (opening : List Kind) (semicolon : Token) (phrases : List (List Token))
    (tokens : List Token) : Prop :=
  ∃ before joined, kinds before = opening ∧ CommaJoined phrases joined ∧
    tokens = before ++ (joined ++ [semicolon])

/-- A declaration for each phrase, one behind the other; the last one ends with the semicolon. -/
inductive Apart (opening : List Kind) (semicolon : Token) :
    List (List Token) → List Token → Prop
  | one {phrase tokens : List Token} (listed : Listed opening semicolon [phrase] tokens) :
      Apart opening semicolon [phrase] tokens
  | more {phrase tokens later : List Token} {phrases : List (List Token)} {mark : Token}
      (mark_kind : mark.kind = .punct .semicolon) (listed : Listed opening mark [phrase] tokens)
      (others : Apart opening semicolon phrases later) :
      Apart opening semicolon (phrase :: phrases) (tokens ++ later)

end Token

namespace Env

/-- A declaration leaves nothing external behind. -/
theorem internal_declaration {env : Env} {items : List Item}
    (declaration : Item.IsDeclaration items) (internal : env.frame.isExtern = false) :
    (env.after items).frame.isExtern = false := by
  cases declaration with
  | declarators all =>
      obtain ⟨spec, hafter⟩ := frame_after_variables all env
      rw [hafter]
      exact internal
  | prototypes all =>
      rw [after_append]
      rfl
  | definition spec name span params all body closing =>
      rw [after_cons, after_cons, after_cons, after_append]
      rfl

end Env

namespace Grammar

variable {loop : Nat → Nat → Parse (List Item)} {tokens tokens' : List Token}
  {items items' : List Item} {span span' : Span} {opening : List Kind} {semicolon : Token}
  {phrases : List (List Token)}

/-- A loop of the grammar passes tokens: whatever follows them, it reads them as certain items and
goes on behind them. -/
def Passes (loop : Nat → Nat → Parse (List Item)) (tokens : List Token) (items : List Item)
    (last : Span) : Prop :=
  ∃ steps, steps ≤ tokens.length ∧
    ∀ (before : Span) (more : List Token) (stop : Token) (bound fuel : Nat),
      tokens.length ≤ bound → loop bound (fuel + steps) ⟨before, tokens ++ more, stop⟩ =
        behind items (loop bound fuel) ⟨last, more, stop⟩

theorem Passes.append (h : Passes loop tokens items span)
    (h' : Passes loop tokens' items' span') :
    Passes loop (tokens ++ tokens') (items ++ items') span' := by
  obtain ⟨steps, hsteps, hread⟩ := h
  obtain ⟨steps', hsteps', hread'⟩ := h'
  refine ⟨steps + steps', ?_, fun before more stop bound fuel hbound => ?_⟩
  · rw [List.length_append]
    omega
  · rw [List.length_append] at hbound
    rw [behind_append, List.append_assoc, ← Nat.add_assoc, Nat.add_right_comm,
      hread before (tokens' ++ more) stop bound (fuel + steps') (by omega)]
    exact behind_congr (hread' span more stop bound fuel (by omega))

/-- One declaration of the program. -/
theorem passes_program {t : Token} {others : List Token} (opens : tokens = t :: others)
    (ne_end : t.kind ≠ .endOfFile)
    (reads : ∀ (before : Span) (more : List Token) (stop : Token) (bound : Nat),
      tokens.length ≤ bound → Reads (declaration bound)
        ⟨before, tokens ++ more, stop⟩ items ⟨span, more, stop⟩) :
    Passes program tokens items span := by
  subst opens
  refine ⟨1, Nat.le_add_left 1 _, fun before more stop bound fuel hbound => ?_⟩
  rw [program, bind_of_reads (reads_kind.2 ⟨rfl, rfl⟩), if_neg (by exact ne_end),
    bind_of_reads (reads before more stop bound hbound)]
  rfl

/-- One declaration of local variables. -/
theorem passes_locals {t : Token} {others : List Token} {spec : TypeSpec}
    (opens : tokens = t :: others) (base : t.kind = .typeWord spec)
    (reads : ∀ (before : Span) (more : List Token) (stop : Token) (bound : Nat),
      tokens.length ≤ bound → Reads (localDeclaration bound)
        ⟨before, tokens ++ more, stop⟩ items ⟨span, more, stop⟩) :
    Passes locals tokens items span := by
  subst opens
  refine ⟨1, Nat.le_add_left 1 _, fun before more stop bound fuel hbound => ?_⟩
  have hword : (⟨before, t :: others ++ more, stop⟩ : Cursor).next.kind.isTypeWord = true := by
    show t.kind.isTypeWord = true
    rw [base]
    rfl
  have hloop : locals bound (fuel + 1) ⟨before, t :: others ++ more, stop⟩ =
      (localDeclaration bound >>= fun items => behind items (locals bound fuel))
        ⟨before, t :: others ++ more, stop⟩ := by
    rw [locals, bind_of_reads (reads_kind.2 ⟨rfl, rfl⟩), if_pos hword, localDeclaration]
    simp only [bind_assoc, pure_bind]
    rfl
  rw [hloop, bind_of_reads (reads before more stop bound hbound)]

/-! ## One declaration -/

section Declaration

variable {isExtern : Bool} {spec : TypeSpec} {before : List Token} {ps : List Prototype}

/-- A declaration opens with a word. -/
theorem exists_cons_of_opening
    (opening : Token.kinds before = Prototype.openingKinds isExtern spec) :
    ∃ t others, before = t :: others ∧ t.kind ≠ .endOfFile := by
  cases isExtern with
  | false | true =>
      obtain ⟨t, others, rfl, hkind, -⟩ := List.map_eq_cons_iff.1 opening
      exact ⟨t, others, rfl, by simp [hkind]⟩

theorem passes_prototypes
    (listed : Listed (Prototype.openingKinds isExtern spec) semicolon phrases tokens)
    (headers : List.Forall₂ Prototype.IsHeaderOf phrases ps)
    (semicolon_kind : semicolon.kind = .punct .semicolon) :
    Passes program tokens (Prototype.listed isExtern spec ps) semicolon.span := by
  obtain ⟨before, joined, opening, hjoined, rfl⟩ := listed
  obtain ⟨t, others, hbefore, ne_end⟩ := exists_cons_of_opening opening
  refine passes_program (by rw [hbefore, List.cons_append]) ne_end
    fun last more stop bound hbound => ?_
  simp only [List.length_append] at hbound
  have hread := reads_declaration_prototypes opening hjoined headers semicolon_kind
    (by omega : joined.length ≤ bound) last more stop
  simpa using hread

theorem passes_objects (listed : Listed [.typeWord spec] semicolon phrases tokens)
    (objects : List.Forall₂ Item.IsObjectOf phrases items)
    (semicolon_kind : semicolon.kind = .punct .semicolon) :
    Passes program tokens (.spec spec :: items) semicolon.span ∧
      Passes locals tokens (.spec spec :: items) semicolon.span := by
  obtain ⟨before, joined, opening, hjoined, rfl⟩ := listed
  obtain ⟨base, others, hbefore, base_kind, -⟩ := List.map_eq_cons_iff.1 opening
  have hopens : before ++ (joined ++ [semicolon]) =
      base :: (others ++ (joined ++ [semicolon])) := by
    rw [hbefore, List.cons_append]
  have hlength {bound : Nat} (h : (before ++ (joined ++ [semicolon])).length ≤ bound) :
      joined.length ≤ bound := by
    simp only [List.length_append] at h
    omega
  refine ⟨passes_program hopens (by simp [base_kind]) fun last more stop bound hbound => ?_,
    passes_locals hopens base_kind fun last more stop bound hbound => ?_⟩
  · have hread := reads_declaration_objects opening hjoined objects semicolon_kind (hlength hbound)
      last more stop
    simpa using hread
  · have hread := reads_localDeclaration opening hjoined objects semicolon_kind (hlength hbound)
      last more stop
    simpa using hread

end Declaration

/-! ## Lists and their phrases apart -/

/-- A loop that passes the declaration of each phrase passes the declarations one behind the
other. -/
theorem passes_apart {α : Type} {IsRead : List Token → α → Prop} {declared : α → List Item}
    {values : List α} (apart : Token.Apart opening semicolon phrases tokens)
    (values_read : List.Forall₂ IsRead phrases values)
    (each : ∀ {phrase : List Token} {a : α} {mark : Token} {tokens : List Token}, IsRead phrase a →
      mark.kind = .punct .semicolon → Token.Listed opening mark [phrase] tokens →
        Passes loop tokens (declared a) mark.span)
    (semicolon_kind : semicolon.kind = .punct .semicolon) :
    Passes loop tokens (values.flatMap declared) semicolon.span := by
  induction apart generalizing values with
  | one listed =>
      cases values_read with
      | cons first others =>
          cases others
          rw [List.flatMap_singleton]
          exact each first semicolon_kind listed
  | more mark_kind listed _ ih =>
      cases values_read with
      | cons first others =>
          rw [List.flatMap_cons]
          exact (each first mark_kind listed).append (ih others)

/-- Where each phrase is read as something, the phrases are read as a list. -/
theorem exists_forall₂ {α β : Type} {R : α → β → Prop} {xs : List α}
    (each : ∀ x ∈ xs, ∃ y, R x y) : ∃ ys, List.Forall₂ R xs ys := by
  induction xs with
  | nil => exact ⟨[], .nil⟩
  | cons x rest ih =>
      obtain ⟨⟨y, hy⟩, hrest⟩ := List.forall_mem_cons.1 each
      obtain ⟨ys, hys⟩ := ih hrest
      exact ⟨y :: ys, .cons hy hys⟩

/-- A declaration has a phrase. -/
theorem ne_nil_of_listed (listed : Listed opening semicolon phrases tokens) : phrases ≠ [] := by
  obtain ⟨before, joined, -, hjoined, -⟩ := listed
  cases hjoined <;> simp

/-- **Between declarations nothing is external.** -/
theorem program_internal (bound fuel : Nat) : Yields (program bound fuel) fun items =>
    ∀ env : Env, env.frame.isExtern = false → (env.after items).frame.isExtern = false := by
  induction fuel with
  | zero => exact .pure fun env h => h
  | succ fuel ih =>
      refine .after fun k => ?_
      split
      · exact .pure fun env h => h
      · refine (declaration_form bound).bind fun items hitems => ?_
        refine ih.holding.bind fun rest hrest => .pure fun env h => ?_
        rw [Env.after_append]
        exact hrest _ (Env.internal_declaration hitems h)

/-- **Declaration lists distribute.** Prototypes between commas are read as their headers and
entered, wherever nothing is external, like the prototypes in declarations of their own: the
reports, the table of the program and the frame are the same. Between declarations nothing is
external. Variables and arrays between commas are declared like those in declarations of their own
in every environment, in the program and at the beginning of a body, with the whole table. -/
theorem declaration_lists_distribute {spec : TypeSpec}
    (semicolon_kind : semicolon.kind = .punct .semicolon) :
    (∀ (isExtern : Bool) (listed apart : List Token),
      (∀ phrase ∈ phrases, Token.kinds phrase ∈ Sentence.header) →
      Listed (Prototype.openingKinds isExtern spec) semicolon phrases listed →
      Apart (Prototype.openingKinds isExtern spec) semicolon phrases apart →
      ∃ ps, List.Forall₂ Prototype.IsHeaderOf phrases ps ∧
        Passes program listed (Prototype.listed isExtern spec ps) semicolon.span ∧
        Passes program apart (Prototype.apart isExtern spec ps) semicolon.span ∧
        ∀ env : Env, env.frame.isExtern = false →
          Env.Agree (env.run (Prototype.listed isExtern spec ps))
            (env.run (Prototype.apart isExtern spec ps))) ∧
    (∀ bound fuel : Nat, Yields (program bound fuel) fun items =>
      ∀ env : Env, env.frame.isExtern = false → (env.after items).frame.isExtern = false) ∧
    ∀ listed apart : List Token,
      (∀ phrase ∈ phrases, Token.kinds phrase ∈ Sentence.words .variable) →
      Listed [.typeWord spec] semicolon phrases listed →
      Apart [.typeWord spec] semicolon phrases apart →
      ∃ objects, List.Forall₂ Item.IsObjectOf phrases objects ∧
        let items := .spec spec :: objects
        let items' := objects.flatMap fun object => [.spec spec, object]
        (Passes program listed items semicolon.span ∧
          Passes program apart items' semicolon.span) ∧
        (Passes locals listed items semicolon.span ∧ Passes locals apart items' semicolon.span) ∧
        ∀ env : Env, env.run items = env.run items' := by
  refine ⟨fun isExtern listed apart headers hlisted hapart => ?_, program_internal,
    fun listed apart each hlisted hapart => ?_⟩
  · obtain ⟨ps, hps⟩ := exists_forall₂ fun phrase h => exists_isHeaderOf (headers phrase h)
    refine ⟨ps, hps, passes_prototypes hlisted hps semicolon_kind, passes_apart hapart hps
      (fun header mark_kind one => passes_prototypes one (.cons header .nil) mark_kind)
      semicolon_kind, fun env internal => ?_⟩
    cases hps with
    | nil => exact absurd rfl (ne_nil_of_listed hlisted)
    | cons => exact Env.agree_prototypes internal isExtern spec _ _
  · obtain ⟨objects, hobjects⟩ := exists_forall₂ fun phrase h => exists_isObjectOf (each phrase h)
    obtain ⟨hprogram, hlocals⟩ := passes_objects hlisted hobjects semicolon_kind
    have hone {phrase tokens : List Token} {item : Item} {mark : Token}
        (object : Item.IsObjectOf phrase item) (mark_kind : mark.kind = .punct .semicolon)
        (one : Listed [.typeWord spec] mark [phrase] tokens) :=
      passes_objects one (.cons object .nil) mark_kind
    refine ⟨objects, hobjects, ⟨hprogram, passes_apart hapart hobjects
        (fun object mark_kind one => (hone object mark_kind one).1) semicolon_kind⟩,
      ⟨hlocals, passes_apart hapart hobjects
        (fun object mark_kind one => (hone object mark_kind one).2) semicolon_kind⟩,
      fun env => ?_⟩
    cases hobjects with
    | nil => exact absurd rfl (ne_nil_of_listed hlisted)
    | cons first others =>
        exact Env.run_objects env spec (Item.isObject_of_forall₂ (.cons first others))

/-- `extern int f(void), f();` and `int x, a[3];`. -/
theorem declaration_lists_distribute_sample :
    let semicolon : Token := ⟨.punct .semicolon, ";", ⟨30, 1⟩⟩
    let comma : Token := ⟨.punct .comma, ",", ⟨18, 1⟩⟩
    let external : Token := ⟨.keyword .external, "extern", ⟨0, 6⟩⟩
    let base : Token := ⟨.typeWord .int, "int", ⟨7, 3⟩⟩
    let f := Token.spaced 11 [(.identifier, "f"), (.punct .leftParen, "("),
      (.typeWord .void, "void"), (.punct .rightParen, ")")]
    let again := Token.spaced 20 [(.identifier, "f"), (.punct .leftParen, "("),
      (.punct .rightParen, ")")]
    let x := Token.spaced 11 [(.identifier, "x")]
    let a := Token.spaced 20 [(.identifier, "a"), (.punct .leftBracket, "["), (.intLiteral, "3"),
      (.punct .rightBracket, "]")]
    (∃ ps, List.Forall₂ Prototype.IsHeaderOf [f, again] ps ∧
      Passes program (external :: base :: (f ++ comma :: again ++ [semicolon]))
        (Prototype.listed true .int ps) semicolon.span ∧
      Passes program (external :: base :: (f ++ [semicolon]) ++
        external :: base :: (again ++ [semicolon])) (Prototype.apart true .int ps)
        semicolon.span ∧
      ∀ env : Env, env.frame.isExtern = false → Env.Agree (env.run (Prototype.listed true .int ps))
        (env.run (Prototype.apart true .int ps))) ∧
    ∃ objects, List.Forall₂ Item.IsObjectOf [x, a] objects ∧
      Passes locals (base :: (x ++ comma :: a ++ [semicolon])) (.spec .int :: objects)
        semicolon.span ∧
      Passes locals (base :: (x ++ [semicolon]) ++ base :: (a ++ [semicolon]))
        (objects.flatMap fun object => [.spec .int, object]) semicolon.span ∧
      ∀ env : Env, env.run (.spec .int :: objects) =
        env.run (objects.flatMap fun object => [.spec .int, object]) := by
  intro semicolon comma external base f again x a
  have hheader {w : List Kind} (hw : w ∈ Sentence.words .parameters) :
      .identifier :: .punct .leftParen :: (w ++ [.punct .rightParen]) ∈ Sentence.header := by
    have hclosed : w ++ [.punct .rightParen] ∈
        Sentence.words .parameters * Sentence.punct .rightParen :=
      Ebnf.mem_mul_letter.2 ⟨w, hw, rfl⟩
    exact Ebnf.mem_letter_mul.2 ⟨_, Ebnf.mem_letter_mul.2 ⟨_, hclosed, rfl⟩, rfl⟩
  have headers : ∀ phrase ∈ [f, again], Token.kinds phrase ∈ Sentence.header := by
    simp only [List.forall_mem_cons, List.not_mem_nil, false_implies, implies_true, and_true]
    have hvoid : [Kind.typeWord .void] ∈ Sentence.words .parameters := by
      rw [Sentence.words_parameters]
      exact .inl (.inr (Ebnf.singleton_mem_letter _))
    have hnone : [] ∈ Sentence.words .parameters := by
      rw [Sentence.words_parameters]
      exact .inl (.inl rfl)
    exact ⟨hheader hvoid, hheader hnone⟩
  have objects : ∀ phrase ∈ [x, a], Token.kinds phrase ∈ Sentence.words .variable := by
    rw [Sentence.words_variable]
    simp only [List.forall_mem_cons, List.not_mem_nil, false_implies, implies_true, and_true]
    have hclosed : [Kind.intLiteral, .punct .rightBracket] ∈
        Ebnf.letter .intLiteral * Sentence.punct .rightBracket :=
      Ebnf.mem_letter_mul.2 ⟨_, Ebnf.singleton_mem_letter _, rfl⟩
    exact ⟨Ebnf.mem_letter_mul.2 ⟨[], .inr rfl, rfl⟩,
      Ebnf.mem_letter_mul.2 ⟨_, .inl (Ebnf.mem_letter_mul.2 ⟨_, hclosed, rfl⟩), rfl⟩⟩
  have hjoined (phrase phrase' : List Token) :
      CommaJoined [phrase, phrase'] (phrase ++ comma :: phrase') := .more phrase rfl (.one phrase')
  have happart (before phrase phrase' : List Token) :
      Apart (Token.kinds before) semicolon [phrase, phrase']
        ((before ++ (phrase ++ [semicolon])) ++ (before ++ (phrase' ++ [semicolon]))) :=
    .more rfl ⟨before, phrase, rfl, .one phrase, rfl⟩
      (.one ⟨before, phrase', rfl, .one phrase', rfl⟩)
  constructor
  · obtain ⟨hprototypes, -⟩ := @declaration_lists_distribute semicolon [f, again] .int rfl
    exact hprototypes true _ _ headers ⟨[external, base], _, rfl, hjoined f again, rfl⟩
      (happart [external, base] f again)
  · obtain ⟨-, -, hobjects⟩ := @declaration_lists_distribute semicolon [x, a] .int rfl
    obtain ⟨items, hitems, -, ⟨hlisted, hapart⟩, hrun⟩ :=
      hobjects _ _ objects ⟨[base], _, rfl, hjoined x a, rfl⟩ (happart [base] x a)
    exact ⟨items, hitems, hlisted, hapart, hrun⟩

end Grammar

end Cmm
