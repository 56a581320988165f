import Cmm.Proofs.Handover.Outlines
import Cmm.Proofs.Printing.Statements

/-!
# Function bodies print and parse

Between the braces of a function, the words of commands are read, and the trees that the commands
stand for are handed over.

* `Command.withReturn` — the trees of a body. One return is added, unless one is last.
* `Node.appendReturn_argumentList` — the chain of these trees is what the end of a body makes.
* `Analysis.body_written` — printing and parsing a body, in a program.
-/

set_option autoImplicit false

namespace Cmm

open Parse Grammar

/-- The trees of the commands of a body, with a return behind them unless they end in one. -/
def Command.withReturn (commands : List Command) : List Node :=
  if (trees commands).getLast?.any Node.isReturn then trees commands
  else trees commands ++ [Node.bareReturn ⟨0, 0⟩]

namespace Node

theorem some_ofItems (before : List Node) (last : Node) :
    some (ofItems before last) = argumentList (before ++ [last]) := by
  induction before with
  | nil => rfl
  | cons n rest ih =>
      rw [List.cons_append]
      show some (cons n (some (ofItems rest last))) = some (cons n (argumentList (rest ++ [last])))
      rw [ih]

/-- A body is a chain with a return behind it, unless one is last. -/
theorem appendReturn_argumentList (ns : List Node) (span : Span) :
    some (appendReturn (argumentList ns) span) =
      argumentList (if ns.getLast?.any isReturn then ns else ns ++ [bareReturn span]) := by
  have hitems : ((argumentList ns).map split).getD [] = ns := by
    have := items_argumentList ns
    rw [Typing.actuals] at this
    cases hchain : argumentList ns with
    | none =>
        rw [hchain] at this
        exact this
    | some n =>
        rw [hchain] at this
        rwa [Option.map_some, split_eq_items]
  unfold appendReturn
  simp only [hitems]
  cases hlast : ns.getLast? with
  | none =>
      rw [List.getLast?_eq_none_iff] at hlast
      rw [hlast]
      rfl
  | some last =>
      dsimp only [Option.any_some]
      split
      · rw [some_ofItems, List.dropLast_append_getLast? last hlast]
      · rw [some_ofItems]

end Node

/-- The body that is handed over is the chain of the trees that its commands stand for. -/
theorem Command.appendReturn_unplaced {commands : List Command} {chain : Option Node}
    (same : chain.map Node.unplaced = (Node.argumentList (trees commands)).map Node.unplaced)
    (span : Span) : some (Node.appendReturn chain span).unplaced =
      (Node.argumentList (withReturn commands)).map Node.unplaced := by
  have hplace (n? : Option Node) (span : Span) : (Node.appendReturn n? span).unplaced =
      Node.appendReturn (n?.map Node.unplaced) ⟨0, 0⟩ := Relabel.unplaced.node_appendReturn n? span
  calc some (Node.appendReturn chain span).unplaced
      = some (Node.appendReturn (chain.map Node.unplaced) ⟨0, 0⟩) := by rw [hplace]
    _ = some (Node.appendReturn (Node.argumentList (trees commands)) ⟨0, 0⟩).unplaced := by
        rw [same, hplace]
    _ = (some (Node.appendReturn (Node.argumentList (trees commands)) ⟨0, 0⟩)).map
        Node.unplaced := rfl
    _ = (Node.argumentList (withReturn commands)).map Node.unplaced := by
        rw [Node.appendReturn_argumentList, withReturn]

namespace Env

variable {env : Env}

/-- At the end of a body its tree is handed over. -/
theorem definitions_body {callee : Handle} (hcallee : env.frame.callee? = some callee)
    (body : List Stmt) (closing : Span) : (env.run [.body body closing]).value.1 =
      [⟨callee, Node.appendReturn (Stmt.checkBody env.table env.frame.result body).value closing,
        env.table⟩] := by
  show (env.frame.callee?.map _).toList ++ [] = _
  rw [hcallee]
  rfl

theorem reports_body (body : List Stmt) (closing : Span) : (env.run [.body body closing]).reports =
    (Stmt.checkBody env.table env.frame.result body).reports := by
  rw [reports_run_cons, run, step]
  simp

end Env

/-- What is known of a program that is read to its end. -/
theorem Analysis.ofTokens_of_reads {tokens : List Token} {items : List Item} {c : Cursor}
    (hread : Reads (program tokens.length tokens.length) (.start tokens) items c) :
    ofTokens tokens = ⟨some (Env.empty.after items).table,
      (Env.empty.run items).reports.map (·.map Fault.semantic), (Env.empty.run items).value.1⟩ := by
  have hfault := (Reading.fault?_ofTokens tokens).2 ⟨items, c, hread⟩
  have hitems : (Reading.ofTokens tokens).items = items := by
    rw [Reading.items_ofTokens, complete_of_reads hread]
  rw [ofTokens, ofReading, hfault, hitems]
  rfl

/-! ## Bodies in programs -/

namespace Command

variable {t : Table} {s : Spelling} {result : TypeSpec} {commands : List Command}
  {statements : List Token} {rightBrace : Token}

theorem kinds_of_words (written : statements.map Token.word = wordsAll t s commands) :
    Token.kinds statements = Word.kinds (wordsAll t s commands) := by
  rw [← written]
  simp [Token.kinds, Word.kinds, Token.word, Function.comp_def]

/-- A body begins with no type word, so it ends the local declarations. -/
theorem not_typeWord (each : ∀ c ∈ commands, c.IsWritable t s result)
    (written : statements.map Token.word = wordsAll t s commands)
    (closes : rightBrace.kind = .punct .rightBrace) :
    (Kind.first (Token.kinds (statements ++ [rightBrace]))).isTypeWord = false := by
  rw [Token.kinds_append, kinds_of_words written]
  cases commands with
  | nil =>
      show rightBrace.kind.isTypeWord = false
      rw [closes]
      rfl
  | cons c rest =>
      obtain ⟨x, v, hx, hfirst⟩ := (each c List.mem_cons_self).first_words
      rw [wordsAll, hx]
      obtain ⟨kind, text⟩ := x
      cases kind with
      | typeWord => simp [Sentence.starters] at hfirst
      | _ => rfl

/-- The words of a body are read up to the brace that ends it, and checked to its trees. -/
theorem reads_statements (each : ∀ c ∈ commands, c.IsWritable t s result)
    (written : statements.map Token.word = wordsAll t s commands)
    (closes : rightBrace.kind = .punct .rightBrace) {bound : Nat}
    (hbound : statements.length ≤ bound) (last : Span) {stop : Token}
    (hstop : stop.kind = .endOfFile) :
    ∃ body behind, Reads (Grammar.statements (statement bound) bound)
        ⟨last, statements ++ [rightBrace], stop⟩ body ⟨behind, [rightBrace], stop⟩ ∧
      (Stmt.checkBody t result body).MakesPart (Node.argumentList (trees commands)) := by
  have hlength : (wordsAll t s commands).length ≤ bound := by
    rwa [← written, List.length_map]
  have hgets := gets_statements (k := [.punct .rightBrace])
    (fun c k writable hfuel hk => gets_statement writable hfuel hk) each hlength hlength rfl
  obtain ⟨body, behind, hread, hbody⟩ := hgets last statements [rightBrace] stop hstop written
    (by rw [List.map_singleton, closes])
  exact ⟨body, behind, hread, Stmt.makes_body hbody⟩

end Command

namespace Analysis

variable {parts : List (List Token)} {f : FunctionTokens} {result : TypeSpec}

/-- A program that ends in a function definition, whatever commands stand in its body. -/
theorem ofTokens_tokensWith
    (complete : ∀ part ∈ parts, Token.kinds part ∈ Sentence.words .declaration)
    (base : f.base.kind = .typeWord result) :
    ∃ (env : Env) (callee : Handle) (reports : List (Report Fault)) (before : List Definition),
      ∀ {tokens statements : List Token} {s : Spelling} {commands : List Command},
        Token.beforeEnd tokens = parts.flatten ++ f.tokensWith statements →
        (∀ c ∈ commands, c.IsWritable env.table s result) →
        statements.map Token.word = Command.wordsAll env.table s commands →
        ∃ tree : Node, ofTokens tokens =
            ⟨some env.close.table, reports, before ++ [⟨callee, tree, env.table⟩]⟩ ∧
          some tree.unplaced =
            (Node.argumentList (Command.withReturn commands)).map Node.unplaced := by
  obtain ⟨items, inside, callee, hcallee, hresult, hprogram⟩ := f.reads_program complete base
  let env := Env.empty.after items
  let reports := (Env.empty.run items).reports.map (·.map Fault.semantic)
  refine ⟨env, callee, reports, (Env.empty.run items).value.1, ?_⟩
  intro tokens statements s commands htokens each written
  have hlength : statements.length ≤ tokens.length := by
    have hwhole : (Token.beforeEnd tokens).length ≤ tokens.length :=
      (List.takeWhile_sublist _).length_le
    rw [htokens, FunctionTokens.tokensWith] at hwhole
    simp only [List.length_append, List.length_cons] at hwhole
    omega
  obtain ⟨body, behind, hbody, hreports, hvalue⟩ := Command.reads_statements each written
    f.rightBrace_kind hlength inside (Cursor.kind_stop_start tokens)
  obtain ⟨c, hread⟩ :=
    hprogram htokens (Command.not_typeWord each written f.rightBrace_kind) hbody
  rw [← hresult] at hreports hvalue
  refine ⟨_, ?_, Command.appendReturn_unplaced hvalue f.rightBrace.span⟩
  rw [ofTokens_of_reads hread, Env.definitions_append, Env.after_append, Env.reports_run_append,
    Env.definitions_body hcallee, Env.reports_body, hreports, List.append_nil]
  rfl

/-- **Bodies print and parse.** Behind complete declarations stands a definition. With nothing
between its braces it is the last function that is handed over, and its table `d.table` says what
can be written in its body: commands that obey the typing rules for its result. Their words between
the braces report nothing. The same functions are handed over, with the same tables; but the tree of
the last one is, up to places, the chain of the trees of the commands, with one return behind them
unless they end in one. -/
theorem body_written {s : Spelling} {commands : List Command}
    {outline tokens statements : List Token}
    (complete : ∀ part ∈ parts, Token.kinds part ∈ Sentence.words .declaration)
    (base : f.base.kind = .typeWord result)
    (empty : Token.beforeEnd outline = parts.flatten ++ f.tokensWith [])
    (whole : Token.beforeEnd tokens = parts.flatten ++ f.tokensWith statements) :
    ∃ before d, (ofTokens outline).definitions = before ++ [d] ∧
      ((∀ c ∈ commands, c.IsWritable d.table s result) →
        statements.map Token.word = Command.wordsAll d.table s commands →
        ∃ tree : Node, (ofTokens tokens).definitions = before ++ [{ d with body := tree }] ∧
          (ofTokens tokens).reports = (ofTokens outline).reports ∧
          (ofTokens tokens).table? = (ofTokens outline).table? ∧
          (ofTokens tokens).table?.isSome ∧
          some tree.unplaced =
            (Node.argumentList (Command.withReturn commands)).map Node.unplaced) := by
  obtain ⟨env, callee, reports, before, hbodies⟩ := ofTokens_tokensWith complete base
  obtain ⟨tree, houtline, -⟩ := @hbodies outline [] s [] empty (by simp) rfl
  refine ⟨before, ⟨callee, tree, env.table⟩, ?_, ?_⟩
  · rw [houtline]
  · intro each written
    obtain ⟨tree', htokens, htree⟩ := hbodies whole each written
    refine ⟨tree', ?_, ?_, ?_, ?_, htree⟩
    · rw [htokens]
    · rw [htokens, houtline]
    · rw [htokens, houtline]
    · rw [htokens]
      rfl

end Analysis

/-- A variable behind its type word. -/
theorem Sentence.mem_variableList (spec : TypeSpec) :
    [.typeWord spec, .identifier, .punct .semicolon] ∈ words .base * variableList := by
  have hspec : Kind.typeWord spec ∈ bases := by
    cases spec <;> decide
  have hsize : [] ∈ size := .inr rfl
  rw [words_base, variableList_eq]
  apply Ebnf.mem_letters_mul.2
  refine ⟨_, hspec, _, ?_, rfl⟩
  apply Ebnf.mem_letter_mul.2
  refine ⟨_, Language.mem_mul.2 ⟨_, hsize, _, ?_, rfl⟩, rfl⟩
  exact Ebnf.mem_mul_letter.2 ⟨[], Language.nil_mem_kstar _, rfl⟩

/-- `void f(void) { int i; }`. -/
def FunctionTokens.sample : FunctionTokens where
  base := ⟨.typeWord .void, "void", ⟨7, 4⟩⟩
  name := ⟨.identifier, "f", ⟨12, 1⟩⟩
  leftParen := ⟨.punct .leftParen, "(", ⟨13, 1⟩⟩
  params := [⟨.typeWord .void, "void", ⟨14, 4⟩⟩]
  rightParen := ⟨.punct .rightParen, ")", ⟨18, 1⟩⟩
  leftBrace := ⟨.punct .leftBrace, "\x7b", ⟨20, 1⟩⟩
  locals := [⟨.typeWord .int, "int", ⟨22, 3⟩⟩, ⟨.identifier, "i", ⟨26, 1⟩⟩,
    ⟨.punct .semicolon, ";", ⟨27, 1⟩⟩]
  statements := []
  rightBrace := ⟨.punct .rightBrace, "\x7d", ⟨90, 1⟩⟩
  base_mem := by decide
  name_kind := rfl
  leftParen_kind := rfl
  params_mem := by
    rw [Sentence.words_parameters]
    exact .inl (.inr (Ebnf.singleton_mem_letter _))
  rightParen_kind := rfl
  leftBrace_kind := rfl
  locals_mem := by
    apply Ebnf.mem_kstar_iff.2
    exact .inr ⟨_, Sentence.mem_variableList .int, [], Language.nil_mem_kstar _, rfl⟩
  statements_mem := Language.nil_mem_kstar _
  rightBrace_kind := rfl

/-- `; for (i = 0; ; ) { ; if (i < n) { if (n < i) f(); } else return; }` behind `int n;`, in a
function with a local `i`. The `for` loop is the only statement that remains, and a return is
added. -/
theorem Analysis.body_written_sample :
    let part : List Token := [⟨.typeWord .int, "int", ⟨0, 3⟩⟩, ⟨.identifier, "n", ⟨4, 1⟩⟩,
      ⟨.punct .semicolon, ";", ⟨5, 1⟩⟩]
    let s : Spelling := ⟨toString, fun _ => "", fun _ => ""⟩
    let n : Node := ⟨.var ⟨.global, 0, 1⟩, .int, ⟨0, 0⟩⟩
    let i : Node := ⟨.var ⟨.local, 0, 1⟩, .int, ⟨0, 0⟩⟩
    let zero : Node := ⟨.int 0, .int, ⟨0, 0⟩⟩
    let less : Node := ⟨.binary .lt i n, .bool, ⟨0, 0⟩⟩
    let more : Node := ⟨.binary .lt n i, .bool, ⟨0, 0⟩⟩
    let again : Command := .branch more (.call ⟨.global, 1, 1⟩ none)
    let choice : Command := .branchElse less (.block [again]) (.ret none)
    let commands : List Command :=
      [.empty, .forLoop (some ⟨i, zero⟩) none none (.block [.empty, choice])]
    let statements := Token.spaced 29 [(.punct .semicolon, ";"), (.keyword .forWord, "for"),
      (.punct .leftParen, "("), (.identifier, "i"), (.punct .equal, "="), (.intLiteral, "0"),
      (.punct .semicolon, ";"), (.punct .semicolon, ";"), (.punct .rightParen, ")"),
      (.punct .leftBrace, "\x7b"), (.punct .semicolon, ";"), (.keyword .ifWord, "if"),
      (.punct .leftParen, "("), (.identifier, "i"), (.punct .less, "<"), (.identifier, "n"),
      (.punct .rightParen, ")"), (.punct .leftBrace, "\x7b"), (.keyword .ifWord, "if"),
      (.punct .leftParen, "("), (.identifier, "n"), (.punct .less, "<"), (.identifier, "i"),
      (.punct .rightParen, ")"), (.identifier, "f"), (.punct .leftParen, "("),
      (.punct .rightParen, ")"), (.punct .semicolon, ";"), (.punct .rightBrace, "\x7d"),
      (.keyword .elseWord, "else"), (.keyword .returnWord, "return"), (.punct .semicolon, ";"),
      (.punct .rightBrace, "\x7d")]
    let tokens := part ++ FunctionTokens.sample.tokensWith statements
    ∃ (d : Definition) (tree : Node), (∀ c ∈ commands, c.IsWritable d.table s .void) ∧
      statements.map Token.word = Command.wordsAll d.table s commands ∧
      (ofTokens tokens).definitions = [{ d with body := tree }] ∧ (ofTokens tokens).reports = [] ∧
      some tree.unplaced = (Node.argumentList (Command.withReturn commands)).map Node.unplaced := by
  intro part s n i zero less more again choice commands statements tokens
  let outline := part ++ FunctionTokens.sample.tokensWith []
  have complete : ∀ p ∈ [part], Token.kinds p ∈ Sentence.words .declaration := by
    intro p hp
    have hkinds : Token.kinds p = [.typeWord .int, .identifier, .punct .semicolon] := by
      rw [List.mem_singleton.1 hp]
      rfl
    rw [hkinds, Sentence.words_declaration]
    exact .inl (.inl (Sentence.mem_variableList .int))
  obtain ⟨before, d, houtline, hbody⟩ := @body_written [part] FunctionTokens.sample .void s commands
    outline tokens statements complete rfl rfl rfl
  have honly {α : Type} {g : Definition → α} {x : α}
      (h : (ofTokens outline).definitions.map g = [x]) : before = [] ∧ g d = x := by
    rw [houtline, List.map_append] at h
    cases before with
    | nil => exact ⟨rfl, (List.cons.inj h).1⟩
    | cons d before => simp at h
  -- What the table holds is computed from the definition without statements.
  obtain ⟨rfl, hn⟩ := @honly _ (·.table.get? ⟨.global, 0, 1⟩)
    (some ⟨"n", .global, .int, none, false, none, ⟨4, 1⟩⟩) (by decide +kernel)
  obtain ⟨-, hi⟩ := @honly _ (·.table.get? ⟨.local, 0, 1⟩)
    (some ⟨"i", .local, .int, none, false, none, ⟨26, 1⟩⟩) (by decide +kernel)
  obtain ⟨-, hf⟩ := @honly _ (·.table.get? ⟨.global, 1, 1⟩)
    (some ⟨"f", .global, .function, none, false, some ⟨.void, [], .defined, false⟩, ⟨12, 1⟩⟩)
    (by decide +kernel)
  obtain ⟨-, hnamed⟩ := @honly _ (fun d => [Handle.mk .global 0 1, ⟨.local, 0, 1⟩,
    ⟨.global, 1, 1⟩].all fun h => d.table.lookupAny (d.table.nameOf h) == some h) true
    (by decide +kernel)
  obtain ⟨-, written⟩ := @honly _ (fun d => Command.wordsAll d.table s commands)
    (statements.map Token.word) (by decide +kernel)
  simp only [List.all_cons, List.all_nil, Bool.and_true, Bool.and_eq_true, beq_iff_eq] at hnamed
  obtain ⟨hname_n, hname_i, hname_f⟩ := hnamed
  have hnumber : Ty.IsNumber .int := .inl rfl
  have hn' : n.IsWritable d.table s := by
    apply Node.IsWritable.of_leaf (.var _ hn) _ trivial rfl
    rintro h ⟨⟩
    exact hname_n
  have hi' : i.IsWritable d.table s := by
    apply Node.IsWritable.of_leaf (.var _ hi) _ trivial rfl
    rintro h ⟨⟩
    exact hname_i
  have hzero : zero.IsWritable d.table s := by
    apply Node.IsWritable.of_leaf (.int 0 _) nofun _ rfl
    show Numeral.constant? "0" = some 0
    decide +kernel
  have hcall : Node.IsWritable d.table s ⟨.call ⟨.global, 1, 1⟩ none, .void, ⟨0, 0⟩⟩ := by
    apply Node.IsWritable.of_leaf (.call _ hf rfl rfl .nil) _ trivial rfl
    rintro h ⟨⟩
    exact hname_f
  have hless : less.IsWritable d.table s :=
    hi'.binary hn' (.comparison (by decide) hnumber hnumber) _
  have hmore : more.IsWritable d.table s :=
    hn'.binary hi' (.comparison (by decide) hnumber hnumber) _
  have hagain : again.IsWritable d.table s .void := .branch ⟨hmore, rfl⟩ (.call hcall)
  have hchoice : choice.IsWritable d.table s .void := by
    apply Command.IsWritable.branchElse ⟨hless, rfl⟩ (.block _) rfl (.bareReturn rfl)
    rintro c hc
    rwa [List.mem_singleton.1 hc]
  have each : ∀ c ∈ commands, c.IsWritable d.table s .void := by
    refine List.forall_mem_cons.2 ⟨.empty, List.forall_mem_singleton.2 ?_⟩
    apply Command.IsWritable.forLoop
    · rintro a ⟨⟩
      exact ⟨.var _ _ _, hi', hnumber, hzero, hnumber⟩
    · nofun
    · nofun
    · apply Command.IsWritable.block
      exact List.forall_mem_cons.2 ⟨.empty, List.forall_mem_singleton.2 hchoice⟩
  have hreports : (ofTokens outline).reports = [] := by
    apply List.isEmpty_iff.1
    decide +kernel
  obtain ⟨tree, hdefinitions, hsame, -, -, htree⟩ := hbody each written.symm
  exact ⟨d, tree, each, written.symm, hdefinitions, hsame.trans hreports, htree⟩

end Cmm
