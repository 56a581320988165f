import Cmm.Proofs.Stages
import Cmm.Proofs.Typing.References
import Cmm.Proofs.Typing.Statements

/-!
# Type soundness

* `Table.record_writes` — the header of a definition that is entered without a report leaves its
  signature in the table.
* `Env.Fits` — what an environment knows of the function at hand, stage by stage; `step_fits` and
  `after_fits` keep it along a run without reports.
* `Analysis.typed` — where a program has no report, every tree that is handed over is typed for the
  result of its function.
-/

set_option autoImplicit false

namespace Cmm

/-! ## The signature of a definition -/

namespace Table

variable {t : Table} {header : Header}

theorem claim_writes (clean : (t.claim header .definition).reports = []) :
    (t.claim header .definition).value.2.2 = true := by
  unfold claim at clean ⊢
  split
  · rfl
  · rename_i callee hl
    rw [hl] at clean
    dsimp only at clean ⊢
    split
    · rename_i sig hsig
      rw [hsig] at clean
      dsimp only at clean
      split
      · rfl
      · rename_i hno
        rw [if_neg hno] at clean
        cases clean
    · rename_i hsig
      rw [hsig] at clean
      cases clean

/-- The header of a definition that is entered without a report leaves its signature. -/
theorem record_writes {scope : Scope} {isExtern : Bool}
    (clean : (t.record header scope isExtern .definition).reports = []) :
    (t.record header scope isExtern .definition).value.1.scope = .global ∧
      ∃ s sig, (t.record header scope isExtern .definition).value.2.get?
          (t.record header scope isExtern .definition).value.1 = some s ∧
        s.ty = .function ∧ s.signature? = some sig ∧ sig.result = header.result := by
  obtain ⟨hcallee, hvalue, hreports⟩ := record_eq t header scope isExtern .definition
  rw [hreports, List.append_eq_nil_iff] at clean
  obtain ⟨hglobal, s, hs, -⟩ := t.claim_callee header .definition
  -- The parameters leave the function where it is.
  obtain ⟨s₁, hs₁, -⟩ := (growths_addFormals _ scope header.params).edits.get?_global hglobal hs
  rw [hcallee, hvalue, if_pos (claim_writes clean.1), get?_modify, if_pos rfl, hs₁]
  exact ⟨hglobal, _, _, rfl, rfl, rfl, rfl⟩

end Table

/-! ## Environments along a run without reports -/

namespace Env

variable {env : Env}

/-- What an environment knows of the function at hand: behind a header its result, in a body also
the symbol with that result. -/
def Fits (env : Env) : Stage → Prop
  | .between => True
  | .headed => env.frame.scope = .local ∧
      ∃ header, env.frame.header? = some header ∧ header.result = env.frame.result
  | .inside => env.frame.scope = .local ∧ ∃ callee s sig, env.frame.callee? = some callee ∧
      callee.scope = .global ∧ env.table.get? callee = some s ∧ s.ty = .function ∧
      s.signature? = some sig ∧ sig.result = env.frame.result

/-- A declaration in a function leaves the names of the program as they are. -/
theorem get?_declareWith (hlocal : env.frame.scope = .local) {h : Handle} {s : Symbol}
    (hglobal : h.scope = .global) (hs : env.table.get? h = some s) (name : String) (span : Span)
    (give : Scalar → Symbol → Symbol) :
    (env.declareWith name span give).value.table.get? h = some s := by
  cases hspec : env.frame.spec.scalar? with
  | none =>
      rw [(declareWith_of_none hspec name span give).1]
      exact hs
  | some scalar =>
      have hscope := Table.scope_insert (t := env.table) name env.frame.scope span
      have hne : (env.table.insert name env.frame.scope span).value.1 ≠ h := by
        intro heq
        rw [heq, hglobal, hlocal] at hscope
        cases hscope
      rw [(declareWith_of_some hspec name span give).1, Table.get?_modify, if_neg hne]
      exact Table.get?_insert name env.frame.scope span hs

theorem Fits.declareWith {stage : Stage} (free : stage ≠ .headed) (fits : env.Fits stage)
    (name : String) (span : Span) (give : Scalar → Symbol → Symbol) :
    (env.declareWith name span give).value.Fits stage := by
  cases stage with
  | between => trivial
  | headed => exact absurd rfl free
  | inside =>
      obtain ⟨hlocal, callee, s, sig, hcallee, hglobal, hs, hf, hsig, hresult⟩ := fits
      unfold Fits
      rw [frame_declareWith]
      exact ⟨hlocal, callee, s, sig, hcallee, hglobal,
        get?_declareWith hlocal hglobal hs name span give, hf, hsig, hresult⟩

theorem fits_stage (env : Env) (name : String) (span : Span) (params : List Param) :
    (env.stage name span params).Fits .headed := by
  unfold stage
  have hbegun : (env.beginHeader name span).Fits .headed := ⟨rfl, _, rfl, rfl⟩
  generalize env.beginHeader name span = begun at hbegun
  induction params generalizing begun with
  | nil => exact hbegun
  | cons p rest ih =>
      obtain ⟨hlocal, header, hheader, hresult⟩ := hbegun
      refine ih (begun.addParam p)
        ⟨hlocal, { header with params := header.params ++ [p] }, ?_, hresult⟩
      simp only [addParam, hheader, Option.map_some]

/-- A body begins in the function of its header. -/
theorem fits_beginBody (fits : env.Fits .headed) (clean : env.beginBody.reports = []) :
    env.beginBody.value.Fits .inside := by
  obtain ⟨hlocal, header, hheader, hresult⟩ := fits
  unfold beginBody record at clean ⊢
  rw [hheader] at clean ⊢
  simp only [Checked.reports_bind, Checked.value_bind, Checked.reports_pure, List.append_nil]
    at clean ⊢
  obtain ⟨hglobal, s, sig, hs, hf, hsig, hsame⟩ := Table.record_writes clean
  exact ⟨hlocal, _, s, sig, rfl, hglobal, hs, hf, hsig, hsame.trans hresult⟩

/-- **An item in its place, without a report, keeps what is known of the function at hand.** -/
theorem step_fits {a b : Stage} {item : Item} (moves : item.Moves a b) (fits : env.Fits a)
    (clean : (env.step item).reports = []) : (env.step item).value.2.Fits b := by
  cases moves with
  | external | prototype | endPrototypes | body => trivial
  | spec spec free =>
      cases a with
      | between => trivial
      | headed => exact absurd rfl free
      | inside => exact fits
  | scalar name span free => exact fits.declareWith free name span _
  | array name size sizeSpan span free =>
      show (env.declareSized name size sizeSpan span).value.Fits a
      rw [value_declareSized]
      exact fits.declareWith free name span _
  | header name span params => exact fits_stage env name span params
  | beginBody =>
      refine fits_beginBody fits ?_
      rw [step, Checked.reports_bind, List.append_eq_nil_iff] at clean
      exact clean.1

theorem after_fits {a b : Stage} {items : List Item} (leads : Item.Leads a items b)
    (fits : env.Fits a) (clean : (env.run items).reports = []) : (env.after items).Fits b := by
  induction leads generalizing env with
  | nil _ => exact fits
  | cons head _ ih =>
      rw [reports_run_cons, List.append_eq_nil_iff] at clean
      exact ih (step_fits head fits clean.1) clean.2

end Env

/-! ## Programs without reports -/

/-- **Type soundness.** Where nothing is reported, the program is read to its end, and every tree
that is handed over is that of a function of the table that comes with it. The tree obeys the typing
rules of a body with the result of the function, and no part of it stands for an error or has the
type of one. -/
theorem Analysis.typed (tokens : List Token) (clean : (ofTokens tokens).reports = []) :
    ∀ d ∈ (ofTokens tokens).definitions, ∃ s sig, d.table.get? d.callee = some s ∧
      s.ty = .function ∧ s.signature? = some sig ∧ d.body.IsTypedBody d.table sig.result ∧
      d.body.Throughout Node.Clean := by
  intro d hd
  obtain ⟨complete, hclean⟩ := (reports_ofTokens_eq_nil_iff tokens).1 clean
  rw [definitions_ofTokens] at hd
  obtain ⟨before, next, rest, handed⟩ := Env.mem_definitions_iff.1 hd
  obtain ⟨body, closing, hitems, hcallee, htable, hbody, -⟩ := handed.body
  have leads := Reading.leads complete
  rw [hitems] at leads hclean
  rw [Env.reports_run_append, List.append_eq_nil_iff, Env.reports_run_cons,
    List.append_eq_nil_iff] at hclean
  obtain ⟨hbefore, hstep, -⟩ := hclean
  obtain ⟨stage, _, hlead, hmove⟩ := leads.split
  cases hmove with
  | body =>
      obtain ⟨-, callee, s, sig, hcallee', -, hs, hf, hsig, hresult⟩ :=
        Env.after_fits hlead trivial hbefore
      rw [hcallee, Option.some.injEq] at hcallee'
      rw [← hcallee', ← htable] at hs
      have ht : d.table.Sound := htable ▸ Env.sound_after before
      have hchecked : (Stmt.checkBody d.table sig.result body).reports = [] := by
        rw [Env.step, Checked.reports_bind, List.append_eq_nil_iff] at hstep
        rw [htable, hresult]
        exact hstep.1
      have htyped : d.body.IsTypedBody d.table sig.result := by
        rw [hbody, ← hresult]
        exact Stmt.isTypedBody_appendReturn ht hchecked closing
      exact ⟨s, sig, hs, hf, hsig, htyped, htyped.no_error ht⟩

theorem Analysis.typed_sample : (ofTokens Token.sample).definitions ≠ [] ∧
    ∀ d ∈ (ofTokens Token.sample).definitions, ∃ s sig, d.table.get? d.callee = some s ∧
      s.ty = .function ∧ s.signature? = some sig ∧ d.body.IsTypedBody d.table sig.result ∧
      d.body.Throughout Node.Clean := by
  refine ⟨?_, typed Token.sample (by decide +kernel)⟩
  have : 0 < (ofTokens Token.sample).definitions.length := by decide +kernel
  exact List.ne_nil_of_length_pos this

end Cmm
