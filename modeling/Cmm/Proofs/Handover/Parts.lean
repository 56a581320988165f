import Cmm.Proofs.Sentence.Exact

/-!
# The declarations that a list of tokens holds

* `Token.Parted` — tokens fall into declarations that are complete and what is behind them, which
  begins with none. `Parted.exists`, `Parted.unique` — every list does, in one way.
* `FunctionTokens` — the tokens of a function definition, cut where its parts meet;
  `FunctionTokens.unique` — in one way.
* `Token.declared` — the names behind a type word other than `void`.
-/

set_option autoImplicit false

namespace Cmm

open Sentence Computability Grammar

namespace Token

/-- The kinds of some tokens. -/
def kinds (tokens : List Token) : List Kind := tokens.map (·.kind)

theorem kinds_append (tokens more : List Token) :
    kinds (tokens ++ more) = kinds tokens ++ kinds more := List.map_append

/-- Tokens fall into complete declarations and what is behind them, which begins with none. -/
structure Parted (tokens : List Token) (parts : List (List Token)) (rest : List Token) : Prop where
  whole : tokens = parts.flatten ++ rest
  complete : ∀ part ∈ parts, kinds part ∈ words .declaration
  stuck : ∀ part more, rest = part ++ more → kinds part ∉ words .declaration

/-- Tokens whose kinds a parser takes in front of some others are told apart from these. -/
theorem append_unique {α : Type} {p : Parse α} {part part' more more' : List Token}
    (h : p.Takes (kinds part) (kinds more)) (h' : p.Takes (kinds part') (kinds more'))
    (heq : part ++ more = part' ++ more') : part = part' ∧ more = more' := by
  have hkinds := congrArg kinds heq
  rw [kinds_append, kinds_append] at hkinds
  have hlength := congrArg List.length (h.unique h' hkinds)
  rw [kinds, kinds, List.length_map, List.length_map] at hlength
  exact List.append_inj heq hlength

/-- The first declaration of some tokens is the same however they are cut. -/
theorem part_unique {part part' more more' : List Token} (hp : kinds part ∈ words .declaration)
    (hp' : kinds part' ∈ words .declaration) (heq : part ++ more = part' ++ more') :
    part = part' ∧ more = more' := by
  exact append_unique (takes_declaration hp (Nat.le_add_right _ _))
    (takes_declaration hp' (Nat.le_add_left _ _)) heq

theorem Parted.unique {tokens rest rest' : List Token} {parts parts' : List (List Token)}
    (h : Parted tokens parts rest) (h' : Parted tokens parts' rest') :
    parts = parts' ∧ rest = rest' := by
  induction parts generalizing tokens parts' with
  | nil =>
      have hrest : tokens = rest := h.whole
      cases parts' with
      | nil => exact ⟨rfl, hrest.symm.trans h'.whole⟩
      | cons part' parts' =>
          have hwhole := hrest.symm.trans h'.whole
          rw [List.flatten_cons, List.append_assoc] at hwhole
          exact absurd (h'.complete part' List.mem_cons_self) (h.stuck part' _ hwhole)
  | cons part parts ih =>
      have hwhole := h.whole
      rw [List.flatten_cons, List.append_assoc] at hwhole
      have hpart := h.complete part List.mem_cons_self
      cases parts' with
      | nil => exact absurd hpart (h'.stuck part _ (h'.whole.symm.trans hwhole))
      | cons part' parts' =>
          have hwhole' := h'.whole
          rw [List.flatten_cons, List.append_assoc] at hwhole'
          obtain ⟨rfl, hmore⟩ := part_unique hpart (h'.complete part' List.mem_cons_self)
            (hwhole.symm.trans hwhole')
          obtain ⟨rfl, rfl⟩ := ih ⟨rfl, fun p hp => h.complete p (List.mem_cons_of_mem _ hp),
            h.stuck⟩ ⟨hmore, fun p hp => h'.complete p (List.mem_cons_of_mem _ hp), h'.stuck⟩
          exact ⟨rfl, rfl⟩

theorem ne_nil_of_declaration {part : List Token} (h : kinds part ∈ words .declaration) :
    part ≠ [] := by
  rintro rfl
  obtain ⟨k, v, hnil, -⟩ := first_declaration h
  cases hnil

theorem Parted.exists (tokens : List Token) : ∃ parts rest, Parted tokens parts rest := by
  generalize hlength : tokens.length = n
  induction n using Nat.strongRecOn generalizing tokens with
  | ind n ih =>
      by_cases hfirst : ∃ part more, tokens = part ++ more ∧ kinds part ∈ words .declaration
      · obtain ⟨part, more, rfl, hpart⟩ := hfirst
        have hpos := List.length_pos_iff.2 (ne_nil_of_declaration hpart)
        rw [List.length_append] at hlength
        obtain ⟨parts, rest, h⟩ := ih more.length (by omega) more rfl
        refine ⟨part :: parts, rest, ?_, List.forall_mem_cons.2 ⟨hpart, h.complete⟩, h.stuck⟩
        rw [List.flatten_cons, List.append_assoc, ← h.whole]
      · refine ⟨[], tokens, rfl, by simp, fun part more heq hpart => ?_⟩
        exact hfirst ⟨part, more, heq, hpart⟩

/-- Behind a type word other than `void` a name is declared. -/
def declareName (state : TypeSpec × List String) (name : String) : TypeSpec × List String :=
  if state.1 = .void then state else (state.1, state.2 ++ [name])

/-- What a token does to the type word in force and the names that are declared. -/
def declare (state : TypeSpec × List String) (t : Token) : TypeSpec × List String :=
  match t.kind with
  | .typeWord spec => (spec, state.2)
  | .identifier => declareName state t.lexeme
  | _ => state

/-- The names that some tokens declare: those behind a type word other than `void`. -/
def declared (tokens : List Token) : List String := (tokens.foldl declare (.void, [])).2

end Token

/-- The tokens of a function definition, cut where its parts meet. -/
structure FunctionTokens where
  base : Token
  name : Token
  leftParen : Token
  params : List Token
  rightParen : Token
  leftBrace : Token
  locals : List Token
  statements : List Token
  rightBrace : Token
  base_mem : base.kind ∈ bases
  name_kind : name.kind = .identifier
  leftParen_kind : leftParen.kind = .punct .leftParen
  params_mem : Token.kinds params ∈ words .parameters
  rightParen_kind : rightParen.kind = .punct .rightParen
  leftBrace_kind : leftBrace.kind = .punct .leftBrace
  locals_mem : Token.kinds locals ∈ (words .base * variableList)∗
  statements_mem : Token.kinds statements ∈ (words .statement)∗
  rightBrace_kind : rightBrace.kind = .punct .rightBrace

namespace FunctionTokens

/-- The tokens of the whole definition. -/
def tokens (f : FunctionTokens) : List Token :=
  f.base :: f.name :: (f.leftParen :: (f.params ++ [f.rightParen])) ++
    f.leftBrace :: (f.locals ++ (f.statements ++ [f.rightBrace]))

/-- The names of its parameters and of its local declarations, but for those of type `void`. -/
def declared (f : FunctionTokens) : List String :=
  Token.declared f.params ++ Token.declared f.locals

variable {f g : FunctionTokens}

/-- The kinds of the parameters with their parentheses. -/
theorem parameters_mem (f : FunctionTokens) :
    Token.kinds (f.leftParen :: (f.params ++ [f.rightParen])) ∈
      punct .leftParen * (words .parameters * punct .rightParen) := by
  rw [Ebnf.mem_letter_mul]
  refine ⟨_, Ebnf.mem_mul_letter.2 ⟨_, f.params_mem, rfl⟩, ?_⟩
  simp [Token.kinds, f.leftParen_kind, f.rightParen_kind]

/-- Behind its local declarations stands no type word. -/
theorem not_typeWord_behind_locals (f : FunctionTokens) :
    (Kind.first (Token.kinds (f.statements ++ [f.rightBrace]))).isTypeWord = false := by
  rw [Token.kinds_append]
  have := @Grammar.not_typeWord_behind_locals _ [] f.statements_mem
  rwa [← f.rightBrace_kind] at this

/-- **The tokens of a function definition are cut into its parts in one way only.** -/
theorem unique (h : f.tokens = g.tokens) : f = g := by
  obtain ⟨hbase, hrest⟩ := List.cons.inj h
  obtain ⟨hname, hrest⟩ := List.cons.inj hrest
  obtain ⟨hheader, hbody⟩ := Token.append_unique
    (takes_parameters f.parameters_mem (Nat.le_add_right _ _))
    (takes_parameters g.parameters_mem (Nat.le_add_left _ _)) hrest
  obtain ⟨hleftParen, hheader⟩ := List.cons.inj hheader
  obtain ⟨hparams, hrightParen⟩ := List.append_inj' hheader rfl
  obtain ⟨hleftBrace, hbody⟩ := List.cons.inj hbody
  obtain ⟨hlocals, hbody⟩ := Token.append_unique
    (takes_locals f.locals_mem (Nat.le_add_right _ _) (Nat.le_add_right _ _)
      f.not_typeWord_behind_locals)
    (takes_locals g.locals_mem (Nat.le_add_left _ _) (Nat.le_add_left _ _)
      g.not_typeWord_behind_locals) hbody
  obtain ⟨hstatements, hrightBrace⟩ := List.append_inj' hbody rfl
  cases f
  cases g
  cases hbase
  cases hname
  cases hleftParen
  cases hparams
  cases hrightParen
  cases hleftBrace
  cases hlocals
  cases hstatements
  cases hrightBrace
  rfl

end FunctionTokens

end Cmm
