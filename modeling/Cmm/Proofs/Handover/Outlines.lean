import Cmm.Proofs.Handover.Protocol
import Cmm.Proofs.Prefix.Productions

/-!
# Function definitions with other statements

What stands in front of the statements of a function is read without a look at them.

* `FunctionTokens.tokensWith` — the tokens of a definition with other statements in place of its
  own.
* `Grammar.reads_locals_again` — local declarations are read alike in front of anything but another
  declaration.
* `FunctionTokens.reads_definition` — a definition is read to the same items whatever its statements
  are, but for the body.
* `Grammar.reads_program_behind` — complete declarations are read to the same items whatever follows
  them.
* `FunctionTokens.reads_program` — so a program that ends in a definition is read alike but for the
  body.
-/

set_option autoImplicit false

namespace Cmm

open Parse Grammar

/-- Behind a word at the beginning of the tokens stand the others. -/
theorem Cursor.Reaches.rest_eq {c c' : Cursor} {w : List Kind} {tokens more : List Token}
    (h : c.Reaches w c') (hrest : c.rest = tokens ++ more) (hw : Token.kinds tokens = w) :
    c'.rest = more := by
  obtain ⟨read, hread, hkinds⟩ := h.tokens
  have hlength : read.length = tokens.length := by
    have := congrArg List.length (hkinds.trans hw.symm)
    rwa [List.length_map, Token.kinds, List.length_map] at this
  exact (List.append_inj (hread.symm.trans hrest) hlength).2

/-- The tokens of a definition with other statements in place of its own. -/
def FunctionTokens.tokensWith (f : FunctionTokens) (statements : List Token) : List Token :=
  f.base :: f.name :: (f.leftParen :: (f.params ++ [f.rightParen])) ++
    f.leftBrace :: (f.locals ++ (statements ++ [f.rightBrace]))

namespace Grammar

variable {bound bound' fuel fuel' : Nat} {c c' : Cursor} {items : List Item}

theorem reads_typeWord {base : Token} {spec : TypeSpec} (base_kind : base.kind = .typeWord spec)
    (last : Span) (rest : List Token) (stop : Token) :
    Reads typeWord ⟨last, base :: rest, stop⟩ spec ⟨base.span, rest, stop⟩ := by
  refine .kind base_kind ?_
  exact .bind .advance (.pure _)

/-- Parameters are read alike in front of everything. -/
theorem reads_parameters_alone {header : List Token}
    (complete : Token.kinds header ∈ Sentence.punct .leftParen *
      (Sentence.words .parameters * Sentence.punct .rightParen)) (last : Span) :
    ∃ params behind, ∀ {more : List Token} {stop : Token} {bound : Nat}, header.length ≤ bound →
      Reads (parameters bound) ⟨last, header ++ more, stop⟩ params ⟨behind, more, stop⟩ := by
  let c : Cursor := ⟨last, header, .endAt 0⟩
  have hlength : (Token.kinds header).length ≤ header.length := by
    simp [Token.kinds]
  obtain ⟨params, c', hread, hreach⟩ := takes_parameters complete hlength (k := []) c rfl
    (List.append_nil _).symm
  have hrest : c'.rest = [] := hreach.rest_eq (List.append_nil _).symm rfl
  refine ⟨params, c'.last, ?_⟩
  intro more stop bound hbound
  obtain ⟨-, -, hagain⟩ := closes_parameters (Nat.le_succ _) hbound c params c' rfl
    (Nat.le_refl _) hread
  have hread' := hagain more stop
  rw [Cursor.extend, Cursor.extend, hrest] at hread'
  exact hread'

/-- Local declarations up to the end are read again in front of anything but a type word. -/
theorem reads_locals_again (hstop : c.stop.kind = .endOfFile) (hbound : c.rest.length ≤ bound)
    (hbounds : bound ≤ bound') (hfuel : fuel < fuel') (hr : Reads (locals bound fuel) c items c')
    (hend : c'.rest = []) {more : List Token} {stop : Token} (hstop' : stop.kind = .endOfFile)
    (hmore : (Kind.first (Token.kinds more)).isTypeWord = false) :
    Reads (locals bound' fuel') (c.extend more stop) items (c'.extend more stop) := by
  have hnone : ∀ {c : Cursor} {fuel : Nat}, c.rest = [] →
      Reads (locals bound' (fuel + 1)) (c.extend more stop) [] (c.extend more stop) := by
    intro c fuel hrest
    have hkind : (c.extend more stop).next.kind.isTypeWord = false := by
      rw [Cursor.kind_next hstop', Cursor.extend, hrest]
      exact hmore
    refine .kind rfl ?_
    rw [hkind]
    exact .pure _
  induction fuel generalizing c items fuel' with
  | zero =>
      obtain ⟨fuel', rfl⟩ : ∃ k, fuel' = k + 1 := ⟨fuel' - 1, by omega⟩
      obtain ⟨rfl, rfl⟩ := reads_pure.1 hr
      exact hnone hend
  | succ fuel ih =>
      obtain ⟨fuel', rfl⟩ : ∃ k, fuel' = k + 1 := ⟨fuel' - 1, by omega⟩
      obtain ⟨k, here, hk, hr⟩ := reads_bind.1 hr
      obtain ⟨rfl, rfl⟩ := reads_kind.1 hk
      cases hword : here.next.kind.isTypeWord with
      | false =>
          rw [hword] at hr
          obtain ⟨rfl, rfl⟩ := reads_pure.1 hr
          exact hnone hend
      | true =>
          rw [hword] at hr
          obtain ⟨spec, c₁, hspec, hr⟩ := reads_bind.1 hr
          obtain ⟨⟨name, span⟩, c₂, hname, hr⟩ := reads_bind.1 hr
          obtain ⟨declared, c₃, hdeclared, hr⟩ := reads_bind.1 hr
          obtain ⟨others, c₄, hothers, hr⟩ := reads_bind.1 hr
          obtain ⟨rfl, rfl⟩ := reads_pure.1 hr
          -- Each step leaves tokens to the next one, so it is taken again where more follows.
          obtain ⟨hless₁, hend₁, hspec'⟩ :=
            @persists_typeWord here.rest.length here spec c₁ hstop (Nat.le_refl _) hspec
          rw [← hend₁] at hstop
          obtain ⟨hless₂, hend₂, hname'⟩ :=
            Persists.name c₁ (name, span) c₂ hstop (Nat.le_refl _) hname
          rw [← hend₂] at hstop
          obtain ⟨hless₃, hend₃, hdeclared'⟩ :=
            closes_declarators (by omega : c₂.rest.length ≤ bound) hbounds name span c₂ declared c₃
              hstop (Nat.le_refl _) (reads_holding.1 hdeclared)
          rw [← hend₃] at hstop
          have hrest : Reads (locals bound' fuel') (c₃.extend more stop) others
              (c'.extend more stop) :=
            ih hstop (by omega) (by omega) (reads_holding.1 hothers)
          have hkind : (here.extend more stop).next.kind.isTypeWord = true := by
            rw [Cursor.next_extend (by omega)]
            exact hword
          refine .kind rfl ?_
          rw [hkind]
          refine .bind (hspec' (by omega) more stop) ?_
          refine .bind (hname' (by omega) more stop) ?_
          refine .bind (reads_holding.2 (hdeclared' more stop)) ?_
          exact .bind (reads_holding.2 hrest) (.pure _)

end Grammar

namespace FunctionTokens

variable (f : FunctionTokens)

/-- The parameters of a definition are read alike in front of every body. -/
theorem reads_parameters : ∃ params before, ∀ {more : List Token} {stop : Token} {bound : Nat},
    f.params.length + 3 ≤ bound → Reads (parameters bound)
      ⟨f.name.span, f.leftParen :: (f.params ++ [f.rightParen]) ++ f.leftBrace :: more, stop⟩
      params ⟨before, f.leftBrace :: more, stop⟩ := by
  obtain ⟨params, before, hread⟩ := reads_parameters_alone f.parameters_mem f.name.span
  refine ⟨params, before, fun hbound => hread ?_⟩
  simp only [List.length_cons, List.length_append, List.length_nil]
  omega

/-- A body is read to the same local declarations whatever its statements are. -/
theorem reads_body : ∃ declared before, (∀ item ∈ declared, item.IsVariable) ∧
    ∀ {statements : List Token} {body : List Stmt} {last behind : Span} {stop : Token}
      {bound : Nat}, stop.kind = .endOfFile → f.locals.length < bound →
      (Kind.first (Token.kinds (statements ++ [f.rightBrace]))).isTypeWord = false →
      Reads (Grammar.statements (statement bound) bound)
        ⟨before, statements ++ [f.rightBrace], stop⟩ body ⟨behind, [f.rightBrace], stop⟩ →
      Reads (functionBody bound)
        ⟨last, f.leftBrace :: (f.locals ++ (statements ++ [f.rightBrace])), stop⟩
        (declared ++ [.body body f.rightBrace.span]) ⟨f.rightBrace.span, [], stop⟩ := by
  let c : Cursor := ⟨f.leftBrace.span, f.locals, .endAt 0⟩
  have hlocals : (Token.kinds f.locals).length ≤ f.locals.length := by
    simp [Token.kinds]
  obtain ⟨declared, c', hread, hreach⟩ := takes_locals f.locals_mem hlocals hlocals
    (k := []) rfl c rfl (List.append_nil _).symm
  have hrest : c'.rest = [] := hreach.rest_eq (List.append_nil _).symm rfl
  refine ⟨declared, c'.last, locals_moves _ _ c declared c' hread, ?_⟩
  intro statements body last behind stop bound hstop hbound hnext hbody
  have hself : c.rest.length ≤ f.locals.length := Nat.le_refl _
  have hdeclared := reads_locals_again rfl hself (Nat.le_of_lt hbound) hbound hread hrest hstop
    hnext
  rw [Cursor.extend, Cursor.extend, hrest] at hdeclared
  have hclosing : Reads (Parse.expect .rightBrace .bodyEnd) ⟨behind, [f.rightBrace], stop⟩ ()
      ⟨f.rightBrace.span, [], stop⟩ := .expect f.rightBrace_kind
  have hopening : Reads (Parse.expect .leftBrace .bodyStart)
      ⟨last, f.leftBrace :: (f.locals ++ (statements ++ [f.rightBrace])), stop⟩ ()
      ⟨f.leftBrace.span, f.locals ++ (statements ++ [f.rightBrace]), stop⟩ :=
    .expect f.leftBrace_kind
  refine .bind hopening (.bind hdeclared (reads_holding.2 ?_))
  refine .bind hbody (.bind (reads_next.2 ⟨rfl, rfl⟩) ?_)
  exact .bind (reads_holding.2 hclosing) (.pure _)

/-- **What stands in front of the statements of a definition is read without a look at them.** -/
theorem reads_definition {result : TypeSpec} (base : f.base.kind = .typeWord result) :
    ∃ params declared before, (∀ item ∈ declared, item.IsVariable) ∧
      ∀ {statements : List Token} {body : List Stmt} {last behind : Span} {stop : Token}
        {bound : Nat}, stop.kind = .endOfFile → (f.tokensWith statements).length ≤ bound →
        (Kind.first (Token.kinds (statements ++ [f.rightBrace]))).isTypeWord = false →
        Reads (Grammar.statements (statement bound) bound)
          ⟨before, statements ++ [f.rightBrace], stop⟩ body ⟨behind, [f.rightBrace], stop⟩ →
        Reads (declaration bound) ⟨last, f.tokensWith statements, stop⟩
          ([.spec result, .header f.name.lexeme f.name.span params, .beginBody] ++
            (declared ++ [.body body f.rightBrace.span]))
          ⟨f.rightBrace.span, [], stop⟩ := by
  obtain ⟨params, behindHeader, hparams⟩ := f.reads_parameters
  obtain ⟨declared, before, hvariables, hread⟩ := f.reads_body
  refine ⟨params, declared, before, hvariables, ?_⟩
  intro statements body last behind stop bound hstop hbound hnext hbody
  simp only [tokensWith, List.length_cons, List.length_append, List.length_nil] at hbound
  have hexternal : f.base.kind ≠ .keyword .external := by
    rw [base]
    nofun
  refine .refuse hexternal (.bind (reads_typeWord base last _ stop) ?_)
  refine .name f.name_kind (reads_holding.2 ?_)
  refine .kind f.leftParen_kind ?_
  rw [if_pos rfl]
  refine .bind (hparams (by omega)) (.bind ?_ (.pure _))
  refine .kind f.leftBrace_kind ?_
  rw [if_pos (by decide)]
  refine .bind (reads_holding.2 ?_) (.pure _)
  exact hread hstop (by omega) hnext hbody

end FunctionTokens

/-! ## Complete declarations -/

namespace Grammar

/-- A declaration is read alike in front of everything. -/
theorem reads_declaration_alone {part : List Token}
    (complete : Token.kinds part ∈ Sentence.words .declaration) (last : Span) :
    ∃ items behind, IsReadFrom part items ∧ ∀ {more : List Token} {stop : Token} {bound : Nat},
      part.length ≤ bound →
      Reads (declaration bound) ⟨last, part ++ more, stop⟩ items ⟨behind, more, stop⟩ := by
  let c : Cursor := ⟨last, part, .endAt 0⟩
  obtain ⟨items, c', hread, hrest, -, hitems⟩ := reads_declaration (c := c) rfl complete
    (Nat.le_refl _) (List.append_nil _).symm
  refine ⟨items, c'.last, hitems, ?_⟩
  intro more stop bound hbound
  obtain ⟨-, -, hagain⟩ :=
    closes_declaration (Nat.le_refl _) hbound c items c' rfl (Nat.le_refl _) hread
  have hread' := hagain more stop
  rw [Cursor.extend, Cursor.extend, hrest] at hread'
  exact hread'

/-- At the end, no declaration is left. -/
theorem reads_program_nil (bound fuel : Nat) (last : Span) {stop : Token}
    (hstop : stop.kind = .endOfFile) :
    Reads (program bound fuel) ⟨last, [], stop⟩ [] ⟨last, [], stop⟩ := by
  cases fuel with
  | zero => exact .pure _
  | succ fuel =>
      refine .kind hstop ?_
      rw [if_pos rfl]
      exact .pure _

/-- In front of a declaration, a program reads it first. -/
theorem reads_program_cons {c c' c'' : Cursor} {items rest : List Item} {bound fuel : Nat}
    (hne : c.next.kind ≠ .endOfFile) (hread : Reads (declaration bound) c items c')
    (hrest : Reads (program bound fuel) c' rest c'') :
    Reads (program bound (fuel + 1)) c (items ++ rest) c'' := by
  refine .kind rfl ?_
  rw [if_neg hne]
  exact .bind hread (.bind (reads_holding.2 hrest) (.pure _))

/-- **Complete declarations are read to the same items whatever follows them.** -/
theorem reads_program_behind {parts : List (List Token)}
    (complete : ∀ part ∈ parts, Token.kinds part ∈ Sentence.words .declaration) (last : Span) :
    ∃ items behind steps, (∀ env : Env, env.Rests → (env.after items).Rests) ∧
      steps ≤ parts.flatten.length ∧
      ∀ {more : List Token} {stop : Token} {rest : List Item} {c' : Cursor} {bound fuel : Nat},
        parts.flatten.length ≤ bound →
        Reads (program bound fuel) ⟨behind, more, stop⟩ rest c' →
        Reads (program bound (fuel + steps)) ⟨last, parts.flatten ++ more, stop⟩ (items ++ rest)
          c' := by
  induction parts generalizing last with
  | nil => exact ⟨[], last, 0, fun env hrests => hrests, Nat.le_refl _, fun _ hread => hread⟩
  | cons part parts ih =>
      obtain ⟨hpart, hparts⟩ := List.forall_mem_cons.1 complete
      obtain ⟨first, between, hfirst, hread⟩ := reads_declaration_alone hpart last
      obtain ⟨items, behind, steps, hrests, hsteps, hreads⟩ := ih hparts between
      obtain ⟨k, v, hkinds, hk⟩ := first_declaration hpart
      obtain ⟨t, tail, rfl, rfl, -⟩ := List.map_eq_cons_iff.1 hkinds
      refine ⟨first ++ items, behind, steps + 1, ?_, ?_, ?_⟩
      · intro env hrest
        rw [Env.after_append]
        exact hrests _ (hfirst.rests hrest)
      · rw [List.flatten_cons, List.length_append, List.length_cons]
        omega
      · intro more stop rest c' bound fuel hbound hrest
        rw [List.flatten_cons, List.length_append] at hbound
        rw [List.flatten_cons, List.append_assoc, List.append_assoc]
        apply reads_program_cons
        · intro hend
          replace hend : t.kind = .endOfFile := hend
          simp [hend, Sentence.bases] at hk
        · exact hread (by omega)
        · exact hreads (by omega) hrest

end Grammar

/-! ## Programs -/

namespace Env

variable {env : Env} {items : List Item}

/-- Variables leave the result of the function as it is. -/
theorem result_after (hitems : ∀ item ∈ items, item.IsVariable) :
    (env.after items).frame.result = env.frame.result := by
  obtain ⟨spec, hafter⟩ := frame_after_variables hitems env
  rw [hafter]

/-- Behind a header the function has the result that the header says. -/
theorem result_begin (env : Env) (spec : TypeSpec) (name : String) (span : Span)
    (params : List Param) :
    (env.after [.spec spec, .header name span params, .beginBody]).frame.result = spec := by
  have hafter : env.after [.spec spec, .header name span params, .beginBody] =
      ((env.setSpec spec).stage name span params).beginBody.value := rfl
  rw [hafter, beginBody_stage]
  rfl

end Env

/-- **A program that ends in a definition is read alike but for the body**, whatever statements
stand there. -/
theorem FunctionTokens.reads_program (f : FunctionTokens) {parts : List (List Token)}
    {result : TypeSpec}
    (complete : ∀ part ∈ parts, Token.kinds part ∈ Sentence.words .declaration)
    (base : f.base.kind = .typeWord result) :
    ∃ items inside callee, (Env.empty.after items).frame.callee? = some callee ∧
      (Env.empty.after items).frame.result = result ∧
      ∀ {tokens statements : List Token} {body : List Stmt} {behind : Span},
        Token.beforeEnd tokens = parts.flatten ++ f.tokensWith statements →
        (Kind.first (Token.kinds (statements ++ [f.rightBrace]))).isTypeWord = false →
        Reads (Grammar.statements (statement tokens.length) tokens.length)
          ⟨inside, statements ++ [f.rightBrace], (Cursor.start tokens).stop⟩ body
          ⟨behind, [f.rightBrace], (Cursor.start tokens).stop⟩ →
        ∃ c, Reads (program tokens.length tokens.length) (.start tokens)
          (items ++ [.body body f.rightBrace.span]) c := by
  obtain ⟨items, between, steps, hrests, hsteps, hprogram⟩ := reads_program_behind complete ⟨0, 0⟩
  obtain ⟨params, declared, inside, hvariables, hdefinition⟩ := f.reads_definition base
  let opening : List Item := [.spec result, .header f.name.lexeme f.name.span params, .beginBody]
  have hdeclares := ((hrests _ .empty).begin result f.name.lexeme f.name.span params).after
    hvariables
  obtain ⟨callee, symbol, hcallee, -⟩ := hdeclares.callee
  have hafter : Env.empty.after (items ++ (opening ++ declared)) =
      ((Env.empty.after items).after opening).after declared := by
    rw [Env.after_append, Env.after_append]
  refine ⟨items ++ (opening ++ declared), inside, callee, ?_, ?_, ?_⟩
  · rw [hafter]
    exact hcallee
  · rw [hafter, Env.result_after hvariables, Env.result_begin]
  · intro tokens statements body behind htokens hnext hbody
    have hstop := Cursor.kind_stop_start tokens
    have hlength : parts.flatten.length + (f.tokensWith statements).length ≤ tokens.length := by
      rw [← List.length_append, ← htokens]
      exact (List.takeWhile_sublist _).length_le
    have hpos : 0 < (f.tokensWith statements).length := Nat.succ_pos _
    have hread : Reads (declaration tokens.length)
        ⟨between, f.tokensWith statements, (Cursor.start tokens).stop⟩ _ _ :=
      hdefinition hstop (by omega) hnext hbody
    have hne : (⟨between, f.tokensWith statements, (Cursor.start tokens).stop⟩ : Cursor).next.kind ≠
        .endOfFile := by
      show f.base.kind ≠ .endOfFile
      rw [base]
      nofun
    obtain ⟨fuel, hfuel⟩ : ∃ fuel, tokens.length = fuel + 1 + steps :=
      ⟨tokens.length - 1 - steps, by omega⟩
    have hend := reads_program_nil tokens.length fuel f.rightBrace.span hstop
    have hwhole := hprogram (by omega) (reads_program_cons hne hread hend)
    have hstart : Cursor.start tokens =
        ⟨⟨0, 0⟩, parts.flatten ++ f.tokensWith statements, (Cursor.start tokens).stop⟩ := by
      rw [← htokens, ← Cursor.rest_start]
      rfl
    rw [← hstart, ← hfuel, List.append_nil] at hwhole
    rw [List.append_assoc, List.append_assoc]
    exact ⟨_, hwhole⟩

end Cmm
