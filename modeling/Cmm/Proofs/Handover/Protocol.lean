import Mathlib.Data.List.TakeWhile
import Cmm.Proofs.Complete
import Cmm.Proofs.Handover.Bodies
import Cmm.Proofs.Handover.Interrupted

/-!
# What is handed over

* `FunctionTokens.Handed` — what is handed over at the end of a function definition.
* `Handover` — the declarations of a program hand over one function for each definition among them.
* `Analysis.hands_over` — the finished functions of a program are those of the declarations that its
  tokens begin with, and behind its end nothing is local.
-/

set_option autoImplicit false

namespace Cmm

/-- What is handed over at the end of a function definition. -/
structure FunctionTokens.Handed (f : FunctionTokens) (d : Definition) : Prop where
  isGlobal : d.callee.scope = .global
  /-- The handle refers to a name of the program, the name of the header. -/
  callee : ∃ s, d.table.get? d.callee = some s ∧ s.scope = .global ∧ s.name = f.name.lexeme
  /-- Local are the names of the parameters and of the local declarations, each of them once. -/
  locals : d.table.locals.names = f.declared.eraseDups

/-- Declarations hand over one function for each definition among them, in their order. -/
inductive Handover : List (List Token) → List Definition → Prop
  | nil : Handover [] []
  | definition {f : FunctionTokens} {d : Definition} {parts : List (List Token)}
      {definitions : List Definition} (handed : f.Handed d) (later : Handover parts definitions) :
      Handover (f.tokens :: parts) (d :: definitions)
  | other {part : List Token} {parts : List (List Token)} {definitions : List Definition}
      (none : ∀ f : FunctionTokens, part ≠ f.tokens) (later : Handover parts definitions) :
      Handover (part :: parts) definitions

/-- A function definition ends in a brace. -/
theorem FunctionTokens.ne_of_endInSemicolon {part : List Token}
    (ends : Grammar.EndInSemicolon part) (f : FunctionTokens) : part ≠ f.tokens := by
  rintro rfl
  obtain ⟨before, t, htokens, ht⟩ := ends
  have hbrace : f.tokens = (f.base :: f.name :: (f.leftParen :: (f.params ++ [f.rightParen])) ++
      f.leftBrace :: (f.locals ++ f.statements)) ++ [f.rightBrace] := by
    simp [FunctionTokens.tokens]
  rw [htokens] at hbrace
  obtain ⟨-, hlast⟩ := List.append_inj' hbrace rfl
  cases hlast
  rw [f.rightBrace_kind] at ht
  cases ht

namespace Grammar.IsReadFrom

variable {env : Env} {part : List Token} {items : List Item}

/-- The items of a function definition hand it over. -/
theorem definition_handed (f : FunctionTokens) (hrests : env.Rests) {spec : TypeSpec}
    {params : List Param} {declared : List Item}
    (named : Token.declared f.params = (params.foldl Param.declare (.void, [])).2)
    (all : ∀ item ∈ declared, item.IsVariable)
    (names : DeclareSame f.locals declared)
    (body : List Stmt) (closing : Span) :
    ∃ d, f.Handed d ∧ (env.run (.spec spec :: .header f.name.lexeme f.name.span params ::
      .beginBody :: (declared ++ [.body body closing]))).value.1 = [d] := by
  have hinside := (hrests.begin spec f.name.lexeme f.name.span params).after all
  -- In front of the body, the locals are the names of the tokens.
  have hnames : (declared.foldl Item.declare (spec, (params.foldl Param.declare (.void, [])).2)).2 =
      f.declared := by
    rw [← names (.void, Token.declared f.params ++ []) _ (by rw [List.append_nil, named]),
      Token.foldl_declare_append]
    rfl
  obtain ⟨d, hd, hglobal, hcallee, hlocals⟩ := hinside.handed body closing
  rw [hnames] at hlocals
  refine ⟨d, ⟨hglobal, hcallee, hlocals⟩, ?_⟩
  have hheader : Bodiless [.spec spec, .header f.name.lexeme f.name.span params, .beginBody] := by
    simp [Bodiless, Item.isBody]
  show (env.run ([.spec spec, .header f.name.lexeme f.name.span params, .beginBody] ++
    (declared ++ [.body body closing]))).value.1 = [d]
  rw [Env.definitions_append, Env.definitions_bodiless hheader, Env.definitions_append,
    Env.definitions_bodiless (.of_variables all), Env.definitions_cons, hd]
  rfl

/-- A declaration leads from rest back to rest. -/
theorem rests (h : IsReadFrom part items) (hrests : env.Rests) : (env.after items).Rests := by
  cases h with
  | declarators ends all => exact hrests.after all
  | prototypes ends are =>
      obtain ⟨others, rfl, -⟩ := are
      rw [Env.after_append]
      exact Env.rests_close (hrests.edits.trans (Env.after_edits env others))
  | definition f named all names body closing =>
      rename_i spec params declared
      show ((env.after [.spec spec, .header f.name.lexeme f.name.span params, .beginBody]).after
        (declared ++ [.body body closing])).Rests
      rw [Env.after_append]
      refine Env.rests_close (.trans ?_ (Env.after_edits _ declared))
      exact hrests.edits.trans (Env.after_edits env _)

/-- A declaration hands over what its tokens say. -/
theorem handover (h : IsReadFrom part items) (hrests : env.Rests) {parts : List (List Token)}
    {definitions : List Definition} (later : Handover parts definitions) :
    Handover (part :: parts) ((env.run items).value.1 ++ definitions) := by
  cases h with
  | declarators ends all =>
      rw [Env.definitions_bodiless (.of_variables all)]
      exact .other (FunctionTokens.ne_of_endInSemicolon ends) later
  | prototypes ends are =>
      obtain ⟨others, rfl, hothers⟩ := are
      rw [Env.definitions_bodiless (hothers.append (by simp [Bodiless, Item.isBody]))]
      exact .other (FunctionTokens.ne_of_endInSemicolon ends) later
  | definition f named all names body closing =>
      obtain ⟨d, hhanded, hrun⟩ := definition_handed f hrests named all names body closing
      rw [hrun]
      exact .definition hhanded later

end Grammar.IsReadFrom

/-! ## Programs -/

namespace Grammar

open Parse

variable {bound fuel : Nat} {c c' : Cursor} {items : List Item}

/-- A program that is read to its end leads from rest back to rest. -/
theorem program_gives (bound fuel : Nat) : Gives (program bound fuel) fun _ items =>
    ∀ env : Env, env.Rests → (env.after items).Rests := by
  induction fuel with
  | zero => exact .pure fun env hrests => hrests
  | succ fuel ih =>
      refine .kind fun k => ?_
      split
      · exact .pure fun env hrests => hrests
      · refine (declaration_gives bound).bind fun tokens items hitems => ?_
        refine ih.holding.bind fun more rest hrest => .pure fun env hrests => ?_
        rw [Env.after_append]
        exact hrest _ (hitems.rests hrests)

/-- Where no declaration begins, a program is interrupted before it hands a function over. -/
theorem bodiless_of_stuck (hstop : c.stop.kind = .endOfFile)
    (hstuck : ∀ part more, c.rest = part ++ more →
      Token.kinds part ∉ Sentence.words .declaration) :
    Bodiless (complete (program bound fuel) c) := by
  cases fuel with
  | zero => exact .nil
  | succ fuel =>
      by_cases hend : c.next.kind = .endOfFile
      · rw [program, complete_bind_of_reads (reads_kind.2 ⟨rfl, rfl⟩), if_pos hend]
        exact .nil
      · rw [complete_program hend]
        cases hr : declaration bound c with
        | ok r =>
            obtain ⟨part, hrest, -, hpart⟩ :=
              Gives.of_spells (spells_declaration bound) c r.1 r.2 hstop hr
            exact absurd hpart (hstuck part r.2.rest hrest)
        | error i =>
            rw [complete_bind_of_interrupted hr]
            exact spares_declaration bound c i hr

/-- The first declaration at a place is read up to its end. -/
theorem reads_declaration {part more : List Token} (hstop : c.stop.kind = .endOfFile)
    (hpart : Token.kinds part ∈ Sentence.words .declaration) (hbound : part.length ≤ bound)
    (hrest : c.rest = part ++ more) : ∃ items c', Reads (declaration bound) c items c' ∧
      c'.rest = more ∧ c'.stop = c.stop ∧ IsReadFrom part items := by
  have hkinds : c.kinds = Token.kinds part ++ Token.kinds more := by
    rw [← Token.kinds_append, ← hrest]
    rfl
  have hlength : (Token.kinds part).length ≤ bound := by
    rwa [Token.kinds, List.length_map]
  obtain ⟨items, c', hread, -⟩ := takes_declaration hpart hlength c hstop hkinds
  obtain ⟨part', hrest', hend, hpart', hitems⟩ :=
    ((Gives.of_spells (spells_declaration bound)).and (declaration_gives bound)) c items c'
      hstop hread
  obtain ⟨rfl, hmore⟩ := Token.part_unique hpart' hpart (hrest'.symm.trans hrest)
  exact ⟨items, c', hread, hmore, hend, hitems⟩

/-- **A program hands over the functions of the declarations that it begins with**, whether it is
read to its end or interrupted behind them. -/
theorem program_handover {env : Env} {parts : List (List Token)} {rest : List Token}
    (hstop : c.stop.kind = .endOfFile) (hmarks : ∀ t ∈ c.rest, t.kind ≠ .endOfFile)
    (hparted : Token.Parted c.rest parts rest) (hbound : c.rest.length ≤ bound)
    (hfuel : c.rest.length ≤ fuel) (hrests : env.Rests) :
    Handover parts (env.run (complete (program bound fuel) c)).value.1 := by
  induction parts generalizing c env fuel with
  | nil =>
      have hrest : c.rest = rest := hparted.whole
      rw [Env.definitions_bodiless (bodiless_of_stuck hstop (hrest ▸ hparted.stuck))]
      exact .nil
  | cons part parts ih =>
      have hpart := hparted.complete part List.mem_cons_self
      have hwhole : c.rest = part ++ (parts.flatten ++ rest) := by
        rw [hparted.whole, List.flatten_cons, List.append_assoc]
      have hlength := congrArg List.length hwhole
      rw [List.length_append] at hlength
      have hpos := List.length_pos_iff.2 (Token.ne_nil_of_declaration hpart)
      obtain ⟨items, c', hread, hrest, hend, hitems⟩ :=
        reads_declaration hstop hpart (by omega : part.length ≤ bound) hwhole
      have hne : c.next.kind ≠ .endOfFile := by
        cases hcases : c.rest with
        | nil =>
            rw [hcases, List.length_nil] at hlength
            omega
        | cons t tail =>
            have hnext : c.next = t := by rw [Cursor.next, hcases, List.headD_cons]
            rw [hnext]
            exact hmarks t (by rw [hcases]; exact List.mem_cons_self)
      cases fuel with
      | zero => omega
      | succ fuel =>
          rw [complete_program hne, complete_bind_of_reads hread, complete_holding,
            Env.definitions_append]
          refine hitems.handover hrests (ih (hend ▸ hstop) ?_ ?_ ?_ ?_ (hitems.rests hrests))
          · intro t ht
            exact hmarks t (by rw [hwhole, ← hrest]; exact List.mem_append_right _ ht)
          · exact ⟨hrest, fun p hp => hparted.complete p (List.mem_cons_of_mem _ hp), hparted.stuck⟩
          · rw [hrest]
            omega
          · rw [hrest]
            omega

end Grammar

namespace Analysis

/-- The table that a program leaves is the one behind all its items. -/
theorem table_of_table? {tokens : List Token} {table : Table}
    (h : (ofTokens tokens).table? = some table) : ∃ c, Parse.Reads
      (Grammar.program tokens.length tokens.length) (.start tokens)
      (Reading.ofTokens tokens).items c ∧
    table = (Env.empty.after (Reading.ofTokens tokens).items).table := by
  have hfault := (table?_ofTokens tokens).1 (by rw [h]; rfl)
  obtain ⟨items, c, hread⟩ := (Reading.fault?_ofTokens tokens).1 hfault
  have hitems : (Reading.ofTokens tokens).items = items := by
    rw [Reading.items_ofTokens, Parse.complete_of_reads hread]
  refine ⟨c, hitems ▸ hread, ?_⟩
  unfold ofTokens ofReading at h
  rw [hfault] at h
  exact (Option.some.inj h).symm

/-- The declarations that the tokens begin with hand over the functions of the program. -/
theorem handover_of_parted {tokens rest : List Token} {parts : List (List Token)}
    (hparted : Token.Parted (Token.beforeEnd tokens) parts rest) :
    Handover parts (ofTokens tokens).definitions := by
  have hstart := Cursor.rest_start tokens
  have hlength : (Cursor.start tokens).rest.length ≤ tokens.length := by
    rw [hstart]
    exact (List.takeWhile_prefix _).length_le
  have hmarks : ∀ t ∈ (Cursor.start tokens).rest, t.kind ≠ .endOfFile := by
    intro t ht
    rw [hstart] at ht
    have := List.mem_takeWhile_imp ht
    exact of_decide_eq_true this
  rw [definitions_ofTokens, Reading.items_ofTokens]
  exact Grammar.program_handover (Cursor.kind_stop_start tokens) hmarks (hstart ▸ hparted)
    hlength hlength .empty

/-- **The consumer protocol.** The tokens in front of the end mark fall, in one way, into
declarations that are complete and a rest that begins with none. One function is handed over for
each function definition among these declarations, in their order, and nothing else is: the handle
refers to the name of the header in the program, and local are the names of that definition only.
Where a program leaves a table, nothing is local in it. -/
theorem hands_over (tokens : List Token) :
    ∃ parts rest, Token.Parted (Token.beforeEnd tokens) parts rest ∧
      (∀ parts' rest', Token.Parted (Token.beforeEnd tokens) parts' rest' →
        parts' = parts ∧ rest' = rest) ∧
      Handover parts (ofTokens tokens).definitions ∧
      ∀ table, (ofTokens tokens).table? = some table → table.locals.entries = #[] := by
  obtain ⟨parts, rest, hparted⟩ := Token.Parted.exists (Token.beforeEnd tokens)
  refine ⟨parts, rest, hparted, fun parts' rest' h => h.unique hparted,
    handover_of_parted hparted, ?_⟩
  intro table htable
  obtain ⟨c, hread, rfl⟩ := table_of_table? htable
  obtain ⟨_, -, -, hrests⟩ :=
    Grammar.program_gives _ _ _ _ c (Cursor.kind_stop_start tokens) hread
  exact (hrests .empty .empty).locals

/-- Of `int f(int a, int a, void b) { int c; } int g(int d) {`, the first function is handed over
with its names and the second is not. -/
example : ((ofTokens (Token.spaced 0 [(.typeWord .int, "int"), (.identifier, "f"),
    (.punct .leftParen, "("), (.typeWord .int, "int"), (.identifier, "a"), (.punct .comma, ","),
    (.typeWord .int, "int"), (.identifier, "a"), (.punct .comma, ","), (.typeWord .void, "void"),
    (.identifier, "b"), (.punct .rightParen, ")"), (.punct .leftBrace, "\x7b"),
    (.typeWord .int, "int"), (.identifier, "c"), (.punct .semicolon, ";"),
    (.punct .rightBrace, "\x7d"), (.typeWord .int, "int"), (.identifier, "g"),
    (.punct .leftParen, "("), (.typeWord .int, "int"), (.identifier, "d"),
    (.punct .rightParen, ")"), (.punct .leftBrace, "\x7b")])).definitions.map
      fun d => d.table.locals.names) = [["a", "c"]] := by
  decide +kernel

end Analysis

end Cmm
