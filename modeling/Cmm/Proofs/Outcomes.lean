import Cmm.Proofs.Census
import Cmm.Proofs.Handover.Protocol
import Cmm.Proofs.Layout
import Cmm.Proofs.SyntaxErrors

/-!
# What a run comes to

* `Token.endInBrace` — the declarations of a program that define a function, by their last token.
* `Handover.length_eq` — as many functions are handed over as are defined.
* `compile_outcome` — when a run succeeds, what it reports when it fails, the number of functions it
  counts, and that listings change none of this.
-/

set_option autoImplicit false

namespace Cmm

/-! ## Definitions among declarations -/

namespace Token

open Grammar Sentence

variable {part : List Token}

/-- Whether the last of some tokens is a closing brace. -/
def endInBrace (part : List Token) : Bool := part.getLast?.any (·.kind == .punct .rightBrace)

theorem endInBrace_tokens (f : FunctionTokens) : endInBrace f.tokens = true := by
  simp [endInBrace, FunctionTokens.tokens, List.getLast?_cons, f.rightBrace_kind]

theorem endInBrace_of_endInSemicolon (ends : EndInSemicolon part) : endInBrace part = false := by
  obtain ⟨before, t, rfl, ht⟩ := ends
  simp [endInBrace, ht]

/-- Of the declarations, those end in a brace that are function definitions. -/
theorem endInBrace_iff (h : kinds part ∈ words .declaration) :
    endInBrace part ↔ ∃ f : FunctionTokens, part = f.tokens := by
  have hcursor : (⟨⟨0, 0⟩, part, .endAt 0⟩ : Cursor).stop.kind = .endOfFile := rfl
  obtain ⟨items, c, -, -, -, hitems⟩ :=
    reads_declaration hcursor h (Nat.le_refl _) (List.append_nil part).symm
  cases hitems with
  | declarators ends | prototypes ends =>
      rw [endInBrace_of_endInSemicolon ends]
      exact iff_of_false nofun fun ⟨f, hf⟩ => FunctionTokens.ne_of_endInSemicolon ends f hf
  | definition f => exact iff_of_true (endInBrace_tokens f) ⟨f, rfl⟩

open Computability in
/-- The tokens of a sentence are declarations to the end. -/
theorem Parted.of_program {tokens : List Token} (h : kinds tokens ∈ words .program) :
    ∃ parts, Parted tokens parts [] := by
  have hstuck : ∀ part more : List Token, [] = part ++ more → kinds part ∉ words .declaration := by
    intro part more hnil hpart
    exact ne_nil_of_declaration hpart (List.append_eq_nil_iff.1 hnil.symm).1
  suffices hparts : ∀ w ∈ (words .declaration)∗, ∀ tokens : List Token, kinds tokens = w →
      ∃ parts, Parted tokens parts [] from hparts _ (words_program ▸ h) tokens rfl
  intro w hw
  refine Ebnf.kstar_induction (P := fun w => ∀ tokens : List Token, kinds tokens = w →
    ∃ parts, Parted tokens parts []) ?_ ?_ hw
  · intro tokens hnil
    obtain rfl := List.map_eq_nil_iff.1 hnil
    exact ⟨[], rfl, by simp, hstuck⟩
  · intro u hu v _ ih tokens htokens
    obtain ⟨part, more, rfl, rfl, hmore⟩ := List.map_eq_append_iff.1 htokens
    obtain ⟨parts, hparts⟩ := ih more hmore
    refine ⟨part :: parts, ?_, List.forall_mem_cons.2 ⟨hu, hparts.complete⟩, hstuck⟩
    rw [List.flatten_cons, List.append_assoc, ← hparts.whole]

end Token

/-- As many functions are handed over as there are definitions among the declarations. -/
theorem Handover.length_eq {parts : List (List Token)} {definitions : List Definition}
    (h : Handover parts definitions)
    (complete : ∀ part ∈ parts, Token.kinds part ∈ Sentence.words .declaration) :
    definitions.length = parts.countP Token.endInBrace := by
  induction h with
  | nil => rfl
  | definition _ _ ih =>
      obtain ⟨-, hparts⟩ := List.forall_mem_cons.1 complete
      rw [List.countP_cons_of_pos (Token.endInBrace_tokens _), List.length_cons, ih hparts]
  | @other part _ _ none _ ih =>
      obtain ⟨hpart, hparts⟩ := List.forall_mem_cons.1 complete
      have hother : ¬ Token.endInBrace part := by
        rw [Token.endInBrace_iff hpart]
        exact not_exists.2 none
      rw [List.countP_cons_of_neg hother, ih hparts]

namespace Analysis

variable {tokens : List Token}

/-- A program that leaves a table is declarations to the end, and hands over a function for each
definition among them. -/
theorem length_definitions (h : (ofTokens tokens).table?.isSome) :
    ∃ parts, Token.Parted (Token.beforeEnd tokens) parts [] ∧
      (ofTokens tokens).definitions.length = parts.countP Token.endInBrace := by
  have hkinds : Token.kinds (Token.beforeEnd tokens) = Token.kindsBeforeEnd tokens := by
    rw [← Cursor.rest_start, ← Cursor.kinds_start]
    rfl
  have hprogram := (Reading.complete_iff tokens).1 ((table?_ofTokens tokens).1 h)
  rw [← hkinds] at hprogram
  obtain ⟨parts, hparted⟩ := Token.Parted.of_program hprogram
  exact ⟨parts, hparted, (handover_of_parted hparted).length_eq hparted.complete⟩

variable {a : Analysis} {options : Options}

theorem result_of_clean {table : Table} (htable : a.table? = some table)
    (hreports : a.reports = []) : a.result options = .ok (a.summary table options) := by
  unfold result
  rw [htable]
  dsimp only
  rw [hreports]
  rfl

theorem result_of_not_clean (h : ¬ (a.table?.isSome ∧ a.reports = [])) :
    a.result options = .error a.reports := by
  unfold result
  cases htable : a.table? with
  | none => rfl
  | some table =>
      have hreports : a.reports.isEmpty = false := by
        simpa [htable] using h
      dsimp only
      rw [hreports]
      rfl

theorem functions_summary (table : Table) :
    (a.summary table options).functions = a.definitions.length := by
  have hfunctions := congrArg List.length (Census.holds_ofDefinitions a.definitions).functions
  rw [List.length_map, List.length_map, List.length_map] at hfunctions
  exact hfunctions

/-- Where a program leaves no table, there is a report on it. -/
theorem reports_ne_nil_of_not_clean
    (h : ¬ ((ofTokens tokens).table?.isSome ∧ (ofTokens tokens).reports = [])) :
    (ofTokens tokens).reports ≠ [] := by
  intro hreports
  have hfault := ((reports_ofTokens_eq_nil_iff tokens).1 hreports).1
  exact h ⟨(table?_ofTokens tokens).2 hfault, hreports⟩

end Analysis

/-! ## Runs -/

open Analysis

/-- Nothing is wrong with a text: it is all tokens, read to its end, without a report. -/
def IsClean (text : String) : Prop :=
  (scan text).reports = [] ∧ (ofTokens (scan text).tokens).table?.isSome ∧
    (ofTokens (scan text).tokens).reports = []

/-- The reports of the first stage that has any. -/
def firstReports (text : String) : List (Report Fault) :=
  if (scan text).reports = [] then (ofTokens (scan text).tokens).reports
  else (scan text).reports.map (·.map .lexical)

variable {text : String}

/-- What is no token ends a run before anything is read. -/
theorem compile_of_malformed (h : (scan text).reports ≠ []) (options : Options) :
    compile text options =
      ⟨.error (firstReports text), if options.tokens then (scan text).listing else ""⟩ := by
  simp [compile, firstReports, h]

theorem compile_of_clean (h : IsClean text) : ∃ table, ∀ options,
    (compile text options).result = .ok ((ofTokens (scan text).tokens).summary table options) := by
  obtain ⟨hscan, htable, hreports⟩ := h
  obtain ⟨table, htable⟩ := Option.isSome_iff_exists.1 htable
  exact ⟨table, fun options =>
    (result_compile hscan options).trans (result_of_clean htable hreports)⟩

theorem compile_of_not_clean (h : ¬ IsClean text) :
    firstReports text ≠ [] ∧
      ∀ options, (compile text options).result = .error (firstReports text) := by
  by_cases hscan : (scan text).reports = []
  · have hclean := fun hanalysis => h ⟨hscan, hanalysis⟩
    rw [firstReports, if_pos hscan]
    exact ⟨reports_ne_nil_of_not_clean hclean, fun options =>
      (result_compile hscan options).trans (result_of_not_clean hclean)⟩
  · constructor
    · simp [firstReports, hscan]
    · intro options
      rw [compile_of_malformed hscan]

/-- **No silent failure and no false success.** A run succeeds exactly where every piece of the text
is a token, the program is read to its end, and nothing is reported on it. Otherwise there are
reports: those on the pieces that are no tokens, and then nothing is read or handed over, or those
on the program, where nothing comes behind a syntax error. A run that succeeds counts the function
definitions among the declarations that the text consists of. Listings change none of this. -/
theorem compile_outcome (file text : String) (options : Options) :
    let analysis := ofTokens (scan text).tokens
    let outcome := compile text options
    ((∃ summary, outcome.result = .ok summary) ↔
      (scan text).reports = [] ∧ analysis.table?.isSome ∧ analysis.reports = []) ∧
    (∀ reports, outcome.result = .error reports → reports ≠ [] ∧
      ((scan text).reports ≠ [] → reports = (scan text).reports.map (·.map .lexical) ∧
        outcome.listing = if options.tokens then (scan text).listing else "") ∧
      ((scan text).reports = [] → reports = analysis.reports ∧
        ∀ before d after, reports.map (·.diagnostic (.ofText file text)) = before ++ d :: after →
          isSyntaxCode d.code → after = [])) ∧
    (∀ summary, outcome.result = .ok summary → ∃ parts,
      Token.Parted (Token.beforeEnd (scan text).tokens) parts [] ∧
      (∀ parts' rest', Token.Parted (Token.beforeEnd (scan text).tokens) parts' rest' →
        parts' = parts ∧ rest' = []) ∧
      (∀ part ∈ parts, Token.endInBrace part ↔ ∃ f : FunctionTokens, part = f.tokens) ∧
      summary.functions = parts.countP Token.endInBrace) ∧
    ∀ options', (compile text options').result.map (·.functions) =
      outcome.result.map (·.functions) := by
  intro analysis outcome
  by_cases hclean : IsClean text
  · obtain ⟨table, hok⟩ := compile_of_clean hclean
    have houtcome : outcome.result = .ok (analysis.summary table options) := hok options
    obtain ⟨parts, hparted, hcount⟩ := length_definitions hclean.2.1
    rw [houtcome]
    refine ⟨iff_of_true ⟨_, rfl⟩ hclean, nofun, ?_, fun options' => ?_⟩
    · rintro _ ⟨⟩
      exact ⟨parts, hparted, fun parts' rest' h => h.unique hparted,
        fun part hpart => Token.endInBrace_iff (hparted.complete part hpart),
        (functions_summary table).trans hcount⟩
    · rw [hok]
      exact congrArg Except.ok ((functions_summary table).trans (functions_summary table).symm)
  · obtain ⟨hne, herror⟩ := compile_of_not_clean hclean
    have houtcome : outcome.result = .error (firstReports text) := herror options
    rw [houtcome]
    refine ⟨iff_of_false nofun hclean, ?_, nofun, fun options' => ?_⟩
    · rintro _ ⟨⟩
      refine ⟨hne, fun hscan => ⟨if_neg hscan, ?_⟩, fun hscan => ?_⟩
      · exact congrArg Outcome.listing (compile_of_malformed hscan options)
      · rw [firstReports, if_pos hscan]
        exact ⟨rfl, fun before d after h hd => nil_behind_syntax_error h hd⟩
    · rw [herror]

/-- A run over a variable and a function definition succeeds and counts one definition. Without the
last brace it fails, and reports the end of the text. -/
theorem compile_outcome_interrupted :
    let whole := "int x; int f(void) \x7b return 1; \x7d"
    let cut := "int x; int f(void) \x7b return 1; "
    (∃ summary parts, (compile whole ⟨true, false, true, false⟩).result = .ok summary ∧
      Token.Parted (Token.beforeEnd (scan whole).tokens) parts [] ∧
      summary.functions = parts.countP Token.endInBrace) ∧
    ∃ reports, (compile cut ⟨true, false, true, false⟩).result = .error reports ∧ reports ≠ [] ∧
      ∀ before d after, reports.map (·.diagnostic (.ofText "t.c" cut)) = before ++ d :: after →
        isSyntaxCode d.code → after = [] := by
  intro whole cut
  obtain ⟨hwhole, -, hcount, -⟩ := compile_outcome "t.c" whole ⟨true, false, true, false⟩
  obtain ⟨hcut, hfailed, -, -⟩ := compile_outcome "t.c" cut ⟨true, false, true, false⟩
  constructor
  · have hclean : (scan whole).reports = [] ∧ (ofTokens (scan whole).tokens).table?.isSome ∧
        (ofTokens (scan whole).tokens).reports = [] := by
      decide +kernel
    obtain ⟨summary, hsummary⟩ := hwhole.2 hclean
    obtain ⟨parts, hparted, -, -, hfunctions⟩ := hcount summary hsummary
    exact ⟨summary, parts, hsummary, hparted, hfunctions⟩
  · have hscan : (scan cut).reports = [] := by
      decide +kernel
    have hnone : ¬ (ofTokens (scan cut).tokens).table?.isSome := by
      decide +kernel
    cases hresult : (compile cut ⟨true, false, true, false⟩).result with
    | ok summary => exact absurd (hcut.1 ⟨summary, hresult⟩).2.1 hnone
    | error reports =>
        obtain ⟨hne, -, hread⟩ := hfailed reports hresult
        exact ⟨reports, rfl, hne, (hread hscan).2⟩

end Cmm
