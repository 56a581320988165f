import Cmm.Proofs.Handover.Protocol
import Cmm.Proofs.Scopes
import Cmm.Proofs.Table.Settled

/-!
# The names of a program without a report

* `Item.IsDeclaration` — the items of a declaration: variables, prototypes, or a function
  definition, which is never external; `Grammar.declaration_form`.
* `Env.Settled` — in front of a declaration every symbol of the program is complete, and the
  functions that are defined are those that were handed over.
* `Settled.declaration` — a declaration without a report keeps that.
* `Analysis.globals_complete` — what a program without a report leaves.
-/

set_option autoImplicit false

namespace Cmm

/-! ## The items of a declaration -/

/-- The items of a declaration are variables, prototypes, or those of a function definition. -/
inductive Item.IsDeclaration : List Item → Prop
  | declarators {items : List Item} (all : ∀ item ∈ items, item.IsVariable) : IsDeclaration items
  | prototypes {items : List Item} (all : Headings items) :
      IsDeclaration (items ++ [.endPrototypes])
  | definition (spec : TypeSpec) (name : String) (span : Span) (params : List Param)
      {declared : List Item} (all : ∀ item ∈ declared, item.IsVariable) (body : List Stmt)
      (closing : Span) :
      IsDeclaration (.spec spec :: .header name span params :: .beginBody ::
        (declared ++ [.body body closing]))

namespace Grammar

open Parse

theorem functionBody_form (fuel : Nat) : Yields (functionBody fuel) fun items =>
    ∃ declared body closing, items = declared ++ [.body body closing] ∧
      ∀ item ∈ declared, item.IsVariable := by
  unfold functionBody
  refine .after fun _ => (locals_moves fuel fuel).bind fun declared hdeclared => .holding ?_
  refine .after fun body => .after fun closing => .after fun _ => .pure ?_
  exact ⟨declared, body, closing.span, rfl, hdeclared⟩

theorem declaration_form (fuel : Nat) : Yields (declaration fuel) Item.IsDeclaration := by
  unfold declaration
  refine .after fun isExtern => .after fun spec => .after fun name => .holding (.after fun k => ?_)
  have hopening : Headings ((if isExtern then [Item.external] else []) ++ [.spec spec]) := by
    cases isExtern <;> simp [Headings, Item.isHeading]
  split
  · refine .after fun params => Yields.bind (P := fun items =>
      Item.IsDeclaration ((if isExtern then [Item.external] else []) ++ [.spec spec] ++ items))
      ?_ fun items hitems => .pure hitems
    unfold afterHeader
    refine .after fun k => ?_
    split
    · -- A body stands behind a header only where the declaration is not external.
      rename_i hbody
      have hinternal : isExtern = false := by simpa using (Bool.and_eq_true_iff.1 hbody).1
      subst hinternal
      refine (functionBody_form fuel).holding.bind fun rest hrest => .pure ?_
      obtain ⟨declared, body, closing, rfl, hdeclared⟩ := hrest
      exact .definition spec name.1 name.2 params hdeclared body closing
    · refine (headings_prototypes fuel).holding.bind fun rest hrest => .pure ?_
      obtain ⟨others, rfl, hothers⟩ := hrest
      have hfirst : Headings [.header name.1 name.2 params, .prototype] := by
        simp [Headings, Item.isHeading]
      have := Item.IsDeclaration.prototypes ((hopening.append hfirst).append hothers)
      simpa using this
  · split
    · exact .fail
    · rename_i hfalse
      rw [Bool.not_eq_true] at hfalse
      subst hfalse
      have free : Stage.inside ≠ .headed := by simp
      refine (declarators_moves free fuel name.1 name.2).bind fun declared hall => .pure ?_
      exact .declarators (List.forall_mem_cons.2 ⟨.spec spec free, hall⟩)

end Grammar

/-! ## Variables -/

namespace Env

variable {env : Env} {item : Item} {items : List Item} {handed : List Handle}

/-- A variable of the program that is declared without a report is new, and has its type. -/
theorem globals_declareWith {name : String} {span : Span} {give : Scalar → Symbol → Symbol}
    (hscope : env.frame.scope = .global) (keeps : ∀ scalar s, (give scalar s).name = s.name)
    (quiet : (env.declareWith name span give).reports = []) :
    ∃ scalar, env.table.globals.find? name = none ∧
      (env.declareWith name span give).value.table.globals =
        env.table.globals.push (give scalar (.fresh name .global span)) := by
  cases hspec : env.frame.spec.scalar? with
  | none =>
      rw [(declareWith_of_none hspec name span give).2] at quiet
      cases quiet
  | some scalar =>
      obtain ⟨hvalue, hreports⟩ := declareWith_of_some hspec name span give
      rw [hreports, hscope] at quiet
      rw [hvalue, hscope]
      cases hf : (env.table.bindings .global).find? name with
      | some i => exact absurd quiet (Table.insert_of_some hf).2
      | none =>
          rw [(Table.insert_of_none hf).1]
          have hpushed := @Table.globals_modify_handle
            (env.table.update .global (·.push (.fresh name .global span)))
            env.table.globals.entries.size (give scalar)
          exact ⟨scalar, hf, hpushed.trans (Bindings.modify_push _ (keeps scalar _))⟩

/-- In front of a declaration the program is complete so far: nothing is local, nothing is left of
the declaration before in the frame but its type word, and the functions that are defined are those
that were handed over. -/
structure Settled (env : Env) (handed : List Handle) : Prop where
  rests : env.Rests
  reset : env.frame.reset = env.frame
  globals : env.table.globals.Settled handed

theorem Settled.empty : Env.empty.Settled [] := ⟨.empty, rfl, .empty⟩

theorem Settled.internal (h : env.Settled handed) : env.frame.isExtern = false := by
  rw [← h.reset]
  rfl

theorem Settled.scoped (h : env.Settled handed) : env.Scoped := by
  refine ⟨h.rests.edits.sound .empty, h.rests.edits.placed .empty, fun _ => ?_⟩
  refine ⟨?_, ?_, ?_, h.rests.locals⟩
  all_goals
    rw [← h.reset]
    rfl

/-- A variable without a report is one more complete symbol. -/
theorem Settled.declareWith (h : env.Settled handed) {name : String} {span : Span}
    {give : Scalar → Symbol → Symbol} (keeps : ∀ scalar s, (give scalar s).name = s.name)
    (complete : ∀ scalar, (give scalar (.fresh name .global span)).Complete)
    (pending : ∀ scalar, (give scalar (.fresh name .global span)).standing ≠ .defined)
    (quiet : (env.declareWith name span give).reports = []) :
    (env.declareWith name span give).value.table.globals.Settled handed := by
  obtain ⟨scalar, hnew, hglobals⟩ := globals_declareWith h.rests.scope keeps quiet
  have hpush := h.globals.push (s := give scalar (.fresh name .global span))
    ((congrArg env.table.globals.find? (keeps scalar _)).trans hnew) (complete scalar)
  rw [if_neg (pending scalar), List.append_nil] at hpush
  rw [hglobals]
  exact hpush

theorem Settled.declareVariable (h : env.Settled handed) {name : String} {span : Span}
    (quiet : (env.declareVariable name span).reports = []) :
    (env.declareVariable name span).value.table.globals.Settled handed := by
  refine h.declareWith (fun _ _ => rfl) (fun scalar => ?_) (fun _ hdefined => nomatch hdefined)
    quiet
  cases scalar <;> exact ⟨rfl, rfl, rfl⟩

theorem Settled.declareArray (h : env.Settled handed) {name : String} {count : Nat} {span : Span}
    (quiet : (env.declareArray name count span).reports = []) :
    (env.declareArray name count span).value.table.globals.Settled handed :=
  h.declareWith (fun _ _ => rfl) (fun _ => ⟨rfl, ⟨count, rfl⟩, rfl⟩)
    (fun _ hdefined => nomatch hdefined) quiet

/-- An array without a report has a size that fits. -/
theorem declareSized_of_quiet {name size : String} {sizeSpan span : Span}
    (quiet : (env.declareSized name size sizeSpan span).reports = []) :
    ∃ count, env.declareSized name size sizeSpan span = env.declareArray name count span := by
  unfold declareSized at quiet ⊢
  cases hsize : Numeral.size? size with
  | some count => exact ⟨count, rfl⟩
  | none =>
      rw [hsize] at quiet
      cases quiet

theorem Settled.step (h : env.Settled handed) (hitem : item.IsVariable)
    (quiet : (env.step item).reports = []) : (env.step item).value.2.Settled handed := by
  have hrests := h.rests.step hitem
  cases hitem with
  | spec spec =>
      refine ⟨hrests, ?_, h.globals⟩
      show { Frame.start with spec } = { env.frame with spec }
      rw [← h.reset]
      rfl
  | scalar name span =>
      have hquiet := (List.append_eq_nil_iff.1 quiet).1
      have hframe : (env.declareVariable name span).value.frame = env.frame :=
        frame_declareWith ..
      exact ⟨hrests, hframe ▸ h.reset, h.declareVariable hquiet⟩
  | array name size sizeSpan span =>
      have hquiet := (List.append_eq_nil_iff.1 quiet).1
      obtain ⟨count, hsized⟩ := declareSized_of_quiet hquiet
      have hvalue : (env.step (.array name size sizeSpan span)).value.2 =
          (env.declareArray name count span).value := congrArg Checked.value hsized
      have hframe : (env.declareArray name count span).value.frame = env.frame :=
        frame_declareWith ..
      rw [hvalue] at hrests ⊢
      rw [hsized] at hquiet
      exact ⟨hrests, hframe ▸ h.reset, h.declareArray hquiet⟩

/-- Variables without a report are so many complete symbols. -/
theorem Settled.after (h : env.Settled handed) (all : ∀ item ∈ items, item.IsVariable)
    (quiet : (env.run items).reports = []) : (env.after items).Settled handed := by
  induction items generalizing env with
  | nil => exact h
  | cons item rest ih =>
      obtain ⟨hitem, hrest⟩ := List.forall_mem_cons.1 all
      rw [reports_run_cons, List.append_eq_nil_iff] at quiet
      exact ih (h.step hitem quiet.1) hrest quiet.2

/-! ## Prototypes -/

/-- A prototype without a report is one more complete symbol. -/
theorem globals_prototype (hs : env.Scoped) (h : env.table.globals.Settled handed)
    (quiet : env.prototype.reports = []) :
    env.prototype.value.table.globals.Settled handed := by
  have hquiet := (List.append_eq_nil_iff.1 quiet).1
  show (env.record .prototype).value.2.table.globals.Settled handed
  cases hheader : env.frame.header? with
  | none =>
      rw [record_of_none hheader]
      exact h
  | some header =>
      have hscope := hs.scope_of_header hheader
      obtain ⟨hvalue, hreports⟩ := @record_of_some env header .prototype hheader
      rw [hreports, hscope] at hquiet
      have hentered := Table.settled_record hs.placed h header hquiet fun hrole => nomatch hrole
      rw [hvalue, hscope]
      simpa using hentered

theorem globals_heading (hs : env.Scoped) (h : env.table.globals.Settled handed)
    (hitem : item.isHeading = true) (quiet : (env.step item).reports = []) :
    (env.step item).value.2.table.globals.Settled handed := by
  cases item with
  | external | spec => exact h
  | header name span params =>
      show (env.stage name span params).table.globals.Settled handed
      rw [table_stage]
      exact h
  | prototype => exact globals_prototype hs h (List.append_eq_nil_iff.1 quiet).1
  | scalar | array | endPrototypes | beginBody | body | loose => cases hitem

theorem globals_headings (hs : env.Scoped) (h : env.table.globals.Settled handed)
    (all : Headings items) (quiet : (env.run items).reports = []) :
    (env.after items).table.globals.Settled handed := by
  induction items generalizing env with
  | nil => exact h
  | cons item rest ih =>
      obtain ⟨hitem, hrest⟩ := List.forall_mem_cons.1 all
      rw [reports_run_cons, List.append_eq_nil_iff] at quiet
      exact ih (hs.after [item]) (globals_heading hs h hitem quiet.1) hrest quiet.2

/-! ## Definitions -/

/-- Variables are declared without a header, and end no function. -/
theorem actions_of_variables (all : ∀ item ∈ items, item.IsVariable) :
    ∀ action ∈ items.flatMap Item.actions, action.role? = none ∧ action.closes = false := by
  intro action hmem
  obtain ⟨item, hitem, haction⟩ := List.mem_flatMap.1 hmem
  cases all item hitem <;> cases List.mem_singleton.1 haction <;> exact ⟨rfl, rfl⟩

theorem reports_beginBody_stage (env : Env) (name : String) (span : Span) (params : List Param) :
    (env.stage name span params).beginBody.reports =
      (env.table.record ⟨name, span, env.frame.spec, params⟩ .local env.frame.isExtern
        .definition).reports := by
  obtain ⟨-, hrecord⟩ := @record_of_some (env.stage name span params)
    ⟨name, span, env.frame.spec, params⟩ .definition (by rw [stage_eq])
  unfold beginBody
  rw [Checked.reports_bind, hrecord, stage_eq]
  exact List.append_nil _

/-- Where the body of a function begins without a report, its function is defined. -/
theorem Settled.begin (h : env.Settled handed) (spec : TypeSpec) (name : String) (span : Span)
    (params : List Param)
    (quiet : (env.run [.spec spec, .header name span params, .beginBody]).reports = []) :
    let begun := env.after [.spec spec, .header name span params, .beginBody]
    begun.frame.scope = .local ∧ ∃ callee, begun.frame.callee? = some callee ∧
      begun.table.globals.Settled (handed ++ [callee]) := by
  have hquiet : ((env.setSpec spec).stage name span params).beginBody.reports = [] := by
    rw [reports_run_cons, reports_run_cons, reports_run_cons] at quiet
    obtain ⟨-, hheader⟩ := List.append_eq_nil_iff.1 quiet
    obtain ⟨-, hbegin⟩ := List.append_eq_nil_iff.1 hheader
    obtain ⟨hstep, -⟩ := List.append_eq_nil_iff.1 hbegin
    exact (List.append_eq_nil_iff.1 hstep).1
  rw [reports_beginBody_stage] at hquiet
  have hentered := Table.settled_record h.scoped.placed h.globals _ hquiet fun _ => h.internal
  intro begun
  have hbegun : begun = _ := beginBody_stage (env.setSpec spec) name span params
  rw [hbegun]
  exact ⟨rfl, _, rfl, hentered⟩

/-- A function definition without a report is handed over, and its function is one more that is
defined. -/
theorem Settled.definition (h : env.Settled handed) (spec : TypeSpec) (name : String) (span : Span)
    (params : List Param) {declared : List Item} (all : ∀ item ∈ declared, item.IsVariable)
    (body : List Stmt) (closing : Span) (hitems : items =
      [.spec spec, .header name span params, .beginBody] ++ (declared ++ [.body body closing]))
    (quiet : (env.run items).reports = []) :
    (env.after items).Settled (handed ++ (env.run items).value.1.map (·.callee)) := by
  subst hitems
  rw [reports_run_append, List.append_eq_nil_iff] at quiet
  obtain ⟨hscope, callee, hcallee, hbegun⟩ := h.begin spec name span params quiet.1
  have hedits := h.rests.edits.trans
    (after_edits env [.spec spec, .header name span params, .beginBody])
  have hheading : Bodiless [.spec spec, .header name span params, .beginBody] := by
    simp [Bodiless, Item.isBody]
  rw [after_append, after_append, definitions_append, definitions_bodiless hheading,
    definitions_append, definitions_bodiless (.of_variables all)]
  generalize env.after [.spec spec, .header name span params, .beginBody] = begun
    at hscope hcallee hbegun hedits ⊢
  -- The variables of the function leave it at hand, and the program as it is.
  have hinside := actions_of_variables all
  have hcallee' := (congrArg (·.frame.callee?) (after_eq_play begun declared)).trans
    (callee?_play hinside)
  have hglobals := (congrArg (·.table.globals) (after_eq_play begun declared)).trans
    (globals_play hscope hinside)
  have hhanded : ((begun.after declared).run [.body body closing]).value.1.map (·.callee) =
      [callee] := by
    show (((begun.after declared).frame.callee?.map _).toList ++ []).map Definition.callee = _
    rw [hcallee', hcallee]
    rfl
  refine ⟨rests_close (hedits.trans (after_edits begun declared)), rfl, ?_⟩
  rw [List.nil_append, List.nil_append, hhanded]
  show (begun.after declared).table.globals.Settled _
  rw [hglobals]
  exact hbegun

/-- A declaration without a report keeps the program complete. -/
theorem Settled.declaration (h : env.Settled handed) (hitems : Item.IsDeclaration items)
    (quiet : (env.run items).reports = []) :
    (env.after items).Settled (handed ++ (env.run items).value.1.map (·.callee)) := by
  cases hitems with
  | declarators all =>
      rw [definitions_bodiless (.of_variables all), List.map_nil, List.append_nil]
      exact h.after all quiet
  | @prototypes others all =>
      rw [reports_run_append, List.append_eq_nil_iff] at quiet
      have hglobals := globals_headings h.scoped h.globals all quiet.1
      rw [after_append, definitions_append, definitions_bodiless (.of_headings all)]
      refine ⟨rests_close (h.rests.edits.trans (after_edits env others)), rfl, ?_⟩
      rw [show ((env.after others).run [.endPrototypes]).value.1 = [] from rfl, List.append_nil,
        List.map_nil, List.append_nil]
      exact hglobals
  | definition spec name span params all body closing =>
      exact h.definition spec name span params all body closing rfl quiet

end Env

/-! ## Programs -/

/-- Declarations without a report keep the program complete. -/
theorem Grammar.program_settled (bound fuel : Nat) :
    Parse.Yields (program bound fuel) fun items =>
      ∀ (env : Env) (handed : List Handle), env.Settled handed → (env.run items).reports = [] →
        (env.after items).Settled (handed ++ (env.run items).value.1.map (·.callee)) := by
  have hnil : ∀ (env : Env) (handed : List Handle), env.Settled handed →
      (env.run []).reports = [] →
      (env.after []).Settled (handed ++ (env.run []).value.1.map (·.callee)) := by
    intro env handed h _
    exact (List.append_nil handed).symm ▸ h
  induction fuel with
  | zero => exact .pure hnil
  | succ fuel ih =>
      refine .after fun k => ?_
      split
      · exact .pure hnil
      · refine (declaration_form bound).bind fun items hitems => ?_
        refine ih.holding.bind fun rest hrest => .pure fun env handed h quiet => ?_
        rw [Env.reports_run_append, List.append_eq_nil_iff] at quiet
        rw [Env.after_append, Env.definitions_append, List.map_append, ← List.append_assoc]
        exact hrest _ _ (h.declaration hitems quiet.1) quiet.2

namespace Analysis

/-- **A program without a report leaves a table that is complete.** Every symbol of the program is a
scalar, an array with its size, or a function with its signature, and none is a parameter. The
functions that are defined are those that were handed over, each of them once; one that is declared
only was not. -/
theorem globals_complete {tokens : List Token} (clean : (ofTokens tokens).reports = []) :
    ∃ table, (ofTokens tokens).table? = some table ∧
      (∀ s ∈ table.globals.entries, s.Complete) ∧
      let handed := (ofTokens tokens).definitions.map (·.callee)
      handed.Nodup ∧
        (∀ h, h ∈ handed ↔
          h.scope = .global ∧ ∃ s, table.get? h = some s ∧ s.standing = .defined) ∧
        ∀ h s, table.get? h = some s → s.standing = .prototyped → h ∉ handed := by
  obtain ⟨hcomplete, quiet⟩ := (reports_ofTokens_eq_nil_iff tokens).1 clean
  obtain ⟨table, htable⟩ := Option.isSome_iff_exists.1 ((table?_ofTokens tokens).2 hcomplete)
  obtain ⟨c, hread, rfl⟩ := table_of_table? htable
  have hsettled := Grammar.program_settled _ _ _ _ _ hread .empty [] .empty quiet
  rw [List.nil_append, ← definitions_ofTokens] at hsettled
  refine ⟨_, htable, ?_, ?_⟩
  · intro s hs
    obtain ⟨i, hi⟩ := Array.mem_iff_getElem?.1 hs
    exact hsettled.globals.complete i s hi
  · intro handed
    have hhanded := fun h => Table.mem_handed_iff (h := h) hsettled.globals
    refine ⟨hsettled.globals.nodup, hhanded, fun h s hs hprototyped hin => ?_⟩
    obtain ⟨-, s', hs', hdefined⟩ := (hhanded h).1 hin
    rw [hs, Option.some.injEq] at hs'
    rw [← hs', hprototyped] at hdefined
    cases hdefined

/-- `extern int g(char c[]); int a[3]; int f(int x); int f(int x) { return a[x]; }`: of these names
only `f` is handed over. -/
theorem globals_complete_prototyped :
    let tokens := Token.spaced 0 [(.keyword .external, "extern"), (.typeWord .int, "int"),
      (.identifier, "g"), (.punct .leftParen, "("), (.typeWord .char, "char"), (.identifier, "c"),
      (.punct .leftBracket, "["), (.punct .rightBracket, "]"), (.punct .rightParen, ")"),
      (.punct .semicolon, ";"), (.typeWord .int, "int"), (.identifier, "a"),
      (.punct .leftBracket, "["), (.intLiteral, "3"), (.punct .rightBracket, "]"),
      (.punct .semicolon, ";"), (.typeWord .int, "int"), (.identifier, "f"),
      (.punct .leftParen, "("), (.typeWord .int, "int"), (.identifier, "x"),
      (.punct .rightParen, ")"), (.punct .semicolon, ";"), (.typeWord .int, "int"),
      (.identifier, "f"), (.punct .leftParen, "("), (.typeWord .int, "int"), (.identifier, "x"),
      (.punct .rightParen, ")"), (.punct .leftBrace, "\x7b"), (.keyword .returnWord, "return"),
      (.identifier, "a"), (.punct .leftBracket, "["), (.identifier, "x"),
      (.punct .rightBracket, "]"), (.punct .semicolon, ";"), (.punct .rightBrace, "\x7d")]
    (ofTokens tokens).reports = [] ∧
      (ofTokens tokens).definitions.map (·.callee) = [⟨.global, 2, 1⟩] ∧
      ∃ table, (ofTokens tokens).table? = some table ∧
        (∀ s ∈ table.globals.entries, s.Complete) ∧
        ∃ s, table.get? ⟨.global, 2, 1⟩ = some s ∧ s.standing = .defined := by
  intro tokens
  have hclean : (ofTokens tokens).reports = [] := by decide +kernel
  have hhanded : (ofTokens tokens).definitions.map (·.callee) = [⟨.global, 2, 1⟩] := by
    decide +kernel
  obtain ⟨table, htable, hall, -, hmem, -⟩ := globals_complete hclean
  refine ⟨hclean, hhanded, table, htable, hall, ?_⟩
  exact ((hmem _).1 (hhanded ▸ List.mem_singleton_self _)).2

end Analysis

end Cmm
