import Cmm.Proofs.Actions
import Cmm.Proofs.Typing.Arguments
import Cmm.Proofs.Typing.Checks

/-!
# Calls for their value and calls as statements

Both kinds of call look a name up and are checked by one routine, `Typing.callOf`. A statement that
leaves a result unused is reported before its arguments are looked at, and they never are.

* `Report.count` — how many reports have a code.
* `Typing.reports_callOf` — what is reported of a call: the arguments come last.
* `Typing.Compared`, `Typing.callStatement_exact` — what a statement reports against what the same
  call reports for its value.
-/

set_option autoImplicit false

namespace Cmm

/-- How many reports have a code. -/
def Report.count (code : String) (reports : List (Report SemanticFault)) : Nat :=
  (reports.map (·.fault.code)).count code

theorem Report.count_append (code : String) (rs rs' : List (Report SemanticFault)) :
    Report.count code (rs ++ rs') = Report.count code rs + Report.count code rs' := by
  rw [count, List.map_append, List.count_append, ← count, ← count]

namespace Typing

variable {t : Table} {name : String} {h : Handle} {s : Symbol}

/-! ## The routine that calls share -/

/-- What there is to report on a call before its arguments are looked at. -/
def calleeReports (t : Table) (name : String) (h : Handle) (span : Span) (asStatement : Bool) :
    List (Report SemanticFault) :=
  if !((t.get? h).map (·.isFunction)).getD false then [⟨.notAFunction name, span⟩]
  else if asStatement && ((t.get? h).bind (·.result?)).getD .void != .void then
    [⟨.unusedResult name, span⟩]
  else []

/-- The arguments of a call are matched where there is nothing else to report. -/
theorem reports_callOf (args : Option Node) (span : Span) (asStatement : Bool) :
    (callOf t name h args span asStatement).reports =
      match calleeReports t name h span asStatement with
      | [] => (matchArguments t h args span).reports
      | reports => reports := by
  unfold callOf calleeReports
  dsimp only
  split
  · rfl
  · split
    · rfl
    · simp

/-- A statement that leaves no result unused is checked like a call for its value. -/
theorem callOf_statement_of_void (found : t.get? h = some s)
    (no_result : s.result?.getD .void = .void) (name : String) (args : Option Node)
    (span : Span) :
    callOf t name h args span true = callOf t name h args span false := by
  simp [callOf, found, no_result]

theorem callOf_statement_of_result (found : t.get? h = some s) (is_function : s.ty = .function)
    (result : s.result?.getD .void ≠ .void) (name : String) (args : Option Node) (span : Span) :
    callOf t name h args span true = fail (.unusedResult name) span span := by
  simp [callOf, found, Symbol.isFunction, is_function, result]

theorem reports_callOf_function (found : t.get? h = some s) (is_function : s.ty = .function)
    (name : String) (args : Option Node) (span : Span) :
    (callOf t name h args span false).reports = (matchArguments t h args span).reports := by
  simp [reports_callOf, calleeReports, found, Symbol.isFunction, is_function]

/-! ## Counting the reports on arguments -/

theorem count_argumentFaults (name : String) (position : Nat) (formals : List Formal)
    (args : List Node) : Report.count "E406" (argumentFaults name position formals args) = 0 := by
  fun_induction argumentFaults name position formals args with
  | case1 position formal formals actual actuals later _ ih => exact ih
  | case2 position formal formals actual actuals later _ ih =>
      rw [← List.singleton_append, Report.count_append, ih]
      rfl
  | case3 => rfl

theorem count_matchArguments (found : t.get? h = some s) (args : Option Node) (span : Span) :
    Report.count "E406" (matchArguments t h args span).reports =
      if (actuals args).length = s.formals.length then 0 else 1 := by
  simp only [matchArguments, found, Report.count_append, count_argumentFaults, Nat.zero_add,
    eq_comm (a := s.formals.length)]
  split <;> rfl

theorem reports_matchArguments_eq_nil_iff (found : t.get? h = some s) (args : Option Node)
    (span : Span) :
    (matchArguments t h args span).reports = [] ↔ Suit s.formals (actuals args) := by
  rcases matchArguments_spec found args span with ⟨suit, hmatch⟩ | ⟨unsuited, -, reported⟩
  · simp [hmatch, suit]
  · simp [reported, unsuited]

/-! ## The two kinds of call -/

/-- How a call that is a statement compares with the call of the same function for its value. -/
structure Compared (s : Symbol) (name : String) (args : List Node) (span : Span)
    (statement expression : Checked Node) : Prop where
  without_result : s.result?.getD .void = .void → statement = expression
  with_result : s.result?.getD .void ≠ .void → statement = fail (.unusedResult name) span span
  /-- The statement has the reports of the expression, and one more if a result is left unused. -/
  adds_up : statement.reports.Perm (expression.reports ++
      if s.result?.getD .void = .void then [] else [⟨.unusedResult name, span⟩]) ↔
    s.result?.getD .void = .void ∨ Suit s.formals args
  count_expression : Report.count "E406" expression.reports =
    if args.length = s.formals.length then 0 else 1
  count_statement : Report.count "E406" statement.reports =
    if s.result?.getD .void ≠ .void ∨ args.length = s.formals.length then 0 else 1

/-- **A statement does not look at the arguments of a function that has a result.** Where the
function has none, the statement is checked like the call for its value. Where it has one, that is
the only report, so the statement reports what the call does and one thing more exactly where the
arguments suit; a wrong number of them is reported once for the value and not at all as a
statement. -/
theorem callStatement_exact (resolves : t.lookupAny name = some h) (found : t.get? h = some s)
    (is_function : s.ty = .function) {args : Option Node} {elements : List Node}
    (holds : Node.Holds args elements) (span : Span) :
    Compared s name elements span (callStatement t name args span) (call t name args span) := by
  obtain rfl : actuals args = elements := (holds_actuals args).unique holds
  have hstatement : callStatement t name args span = callOf t name h args span true := by
    rw [callStatement, resolves]
  have hcall : call t name args span = callOf t name h args span false := by
    rw [call, resolves]
  have hreports := reports_callOf_function found is_function name args span
  have hcount := count_matchArguments found args span
  rw [hstatement, hcall]
  by_cases hresult : s.result?.getD .void = .void
  · have hsame := callOf_statement_of_void found hresult name args span
    refine ⟨fun _ => hsame, fun h => absurd hresult h, ?_, ?_, ?_⟩
    · simp [hsame, hresult]
    · rw [hreports, hcount]
    · rw [hsame, hreports, hcount]
      simp [hresult]
  · have hunused := callOf_statement_of_result found is_function hresult name args span
    refine ⟨fun h => absurd h hresult, fun _ => hunused, ?_, ?_, ?_⟩
    · have hnil := reports_matchArguments_eq_nil_iff found args span
      rw [hunused, hreports, if_neg hresult, ← hnil]
      constructor
      · intro hperm
        refine .inr (List.eq_nil_of_length_eq_zero ?_)
        simpa [fail, Checked.report] using hperm.length_eq
      · rintro (h | h)
        · exact absurd h hresult
        · rw [h]
          exact .refl _
    · rw [hreports, hcount]
    · rw [hunused, if_pos (.inl hresult)]
      rfl

/-- The environment inside the body of `g` in `int f(int a); void g(void) {`. -/
def beforeStatement : Env :=
  Env.empty.play [.spec .int, .header "f" ⟨4, 1⟩, .param ⟨"a", .int, false, ⟨10, 1⟩⟩, .prototype,
    .endPrototypes, .spec .void, .header "g" ⟨19, 1⟩, .beginBody]

/-- `f();` in that body: of the statement it is only said that a result is unused. -/
theorem callStatement_exact_sample :
    let t := beforeStatement.table
    ∃ h s, t.lookupAny "f" = some h ∧ t.get? h = some s ∧ s.ty = .function ∧
      Compared s "f" [] ⟨29, 3⟩ (callStatement t "f" none ⟨29, 3⟩) (call t "f" none ⟨29, 3⟩) := by
  intro t
  have resolves : t.lookupAny "f" = some ⟨.global, 0, 1⟩ := by decide +kernel
  have found : t.get? ⟨.global, 0, 1⟩ = some ⟨"f", .global, .function, none, false,
      some ⟨.int, [⟨"a", .local, true, .int⟩], .prototyped, false⟩, ⟨4, 1⟩⟩ := by
    decide +kernel
  exact ⟨_, _, resolves, found, rfl, callStatement_exact resolves found rfl .absent _⟩

/-- The number of arguments of that call is wrong, and the statement does not report it. -/
theorem unused_call_uncounted :
    let t := beforeStatement.table
    let statement := callStatement t "f" none ⟨29, 3⟩
    let expression := call t "f" none ⟨29, 3⟩
    ((t.lookupAny "f").bind t.get?).map (·.ty) = some .function ∧
      expression.reports = [⟨.argumentCount "f" 1 0, ⟨29, 3⟩⟩] ∧
      statement.reports = [⟨.unusedResult "f", ⟨29, 3⟩⟩] ∧
      ¬ statement.reports.Perm (expression.reports ++ [⟨.unusedResult "f", ⟨29, 3⟩⟩]) ∧
      Report.count "E406" statement.reports = 0 := by
  decide +kernel

end Typing

end Cmm
