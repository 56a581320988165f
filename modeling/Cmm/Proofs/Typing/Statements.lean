import Cmm.Proofs.Typing.Expressions

/-!
# The checks of statements against the typing rules

* `Stmt.typed_of_reports_nil` — a statement that is checked without a report becomes a typed
  statement; `typed_of_reports_nil` of targets and assignments before it.
* `Stmt.checkBody_tag` — several statements become a chain of cells, whatever was reported.
* `Stmt.isTypedBody_appendReturn` — the chain with a return behind it is a typed body.
-/

set_option autoImplicit false

namespace Cmm

variable {t : Table} {result : TypeSpec}

/-! ## Assignments -/

theorem Target.typed_of_reports_nil (ht : t.Sound) (place : Target)
    (h : (place.check t).reports = []) : (place.check t).value.IsTyped t := by
  cases place with
  | var name span => exact ((Expr.var name span).hasType_of_reports_nil ht h).2
  | element array index span =>
      exact ((Expr.element array index span).hasType_of_reports_nil ht h).2

theorem Assign.typed_of_reports_nil (ht : t.Sound) (a : Assign) (h : (a.check t).reports = []) :
    (a.check t).value.IsTypedStatement t result := by
  rw [Assign.check, Checked.reports_bind, Checked.reports_bind, List.append_eq_nil_iff,
    List.append_eq_nil_iff] at h
  have htarget := a.target.typed_of_reports_nil ht h.1
  have hvalue := (a.value.hasType_of_reports_nil ht h.2.1).2
  rw [Assign.check, Checked.value_bind, Checked.value_bind]
  rcases Typing.assign_spec (a.target.check t).value (a.value.check t).value a.span with
    ⟨htn, hvn, heq⟩ | ⟨herr, -⟩ | ⟨herr, -⟩ | hr
  · rw [heq]
    exact .assign a.span htarget htn hvalue hvn
  · rw [htarget.isError_eq_false] at herr
    cases herr
  · rw [hvalue.isError_eq_false] at herr
    cases herr
  · exact absurd h.2.2 hr.reported

/-! ## Parts that may be missing -/

theorem Checked.reports_option {α : Type} {check : α → Checked Node} {P : Node → Prop}
    {x? : Option α} (h : (Checked.option check x?).reports = [])
    (hcheck : ∀ x, (check x).reports = [] → P (check x).value) :
    ∀ n ∈ (Checked.option check x?).value, P n := by
  cases x? with
  | none => simp [Checked.option]
  | some x =>
      rw [Checked.option, Checked.reports_map] at h
      rintro n ⟨⟩
      exact hcheck x h

/-- A condition without a report is a truth value. -/
theorem Node.IsTyped.truth (ht : t.Sound) {test : Node} (typed : test.IsTyped t)
    (h : test.ty = .bool ∨ test.ty = .error) : test.ty = .bool :=
  h.resolve_right (typed.ne_error ht)

/-! ## Statements -/

/-- Several statements become a chain of cells. -/
theorem Stmt.checkBody_tag (t : Table) (result : TypeSpec) (body : List Stmt) :
    ∀ n ∈ (Stmt.checkBody t result body).value, n.tag = .cell := by
  induction body with
  | nil => simp [Stmt.checkBody]
  | cons s rest ih =>
      rw [Stmt.checkBody, Checked.value_bind, Checked.value_bind, Checked.value_pure]
      unfold Typing.statementList
      split
      · rintro n ⟨⟩
        rfl
      · exact ih

mutual

/-- A statement that is checked without a report becomes a typed one. -/
theorem Stmt.typed_of_reports_nil (ht : t.Sound) : ∀ (s : Stmt),
    (s.check t result).reports = [] → ∀ n ∈ (s.check t result).value, n.IsTypedStatement t result
  | .empty, _ => by simp [Stmt.check]
  | .block body, h => by
    rw [Stmt.check] at h ⊢
    exact Stmt.typedBody_of_reports_nil ht body h
  | .assign a, h => by
    rw [Stmt.check, Checked.reports_map] at h
    rintro n ⟨⟩
    exact a.typed_of_reports_nil ht h
  | .call callee args span, h => by
    rw [Stmt.check, Checked.reports_bind, Checked.reports_map, List.append_eq_nil_iff] at h
    obtain ⟨-, htyped⟩ := Expr.hasTypes_of_reports_nil ht args h.1
    rintro n ⟨⟩
    rcases Typing.callStatement_spec ht callee (Node.argumentList (Expr.checkAll t args).value)
        span with ⟨_, s, sig, found, hf, hsig, hvoid, hsuit, heq⟩ | hr
    · rw [Node.items_argumentList] at hsuit
      have hpasses := hsuit.passes fun n hn => (htyped n hn).ne_error ht
      rw [heq, Checked.value_pure, hvoid]
      exact .call span found.get hf hsig hvoid (Node.passedTo_argumentList htyped hpasses)
    · exact absurd h.2 hr.reported
  | .branch test thenPart elsePart span, h => by
    simp only [Stmt.check, Typing.branch, Checked.reports_bind, Checked.reports_map,
      Checked.reports_pure, List.append_eq_nil_iff, Typing.condition_reports] at h
    obtain ⟨htest, hthen, helse, hbool, -⟩ := h
    have htest := (test.hasType_of_reports_nil ht htest).2
    have hthen := thenPart.typed_of_reports_nil ht hthen
    have helse := Stmt.typedElse_of_reports_nil ht elsePart helse
    rintro n ⟨⟩
    exact .branch span htest (htest.truth ht hbool) hthen helse
  | .whileLoop test body span, h => by
    simp only [Stmt.check, Typing.whileLoop, Checked.reports_bind, Checked.reports_map,
      Checked.reports_pure, List.append_eq_nil_iff, Typing.condition_reports] at h
    obtain ⟨htest, hbody, hbool, -⟩ := h
    have htest := (test.hasType_of_reports_nil ht htest).2
    have hbody := body.typed_of_reports_nil ht hbody
    rintro n ⟨⟩
    exact .whileLoop span htest (htest.truth ht hbool) hbody
  | .forLoop start test update body span, h => by
    simp only [Stmt.check, Checked.reports_bind, Checked.reports_map, List.append_eq_nil_iff,
      (Typing.forLoop_spec _ _ _ _ _).2] at h
    obtain ⟨hstart, htest, hupdate, hbody, hbool⟩ := h
    have hstart : ∀ n ∈ _, Node.IsTypedStatement t result n :=
      Checked.reports_option hstart fun a => a.typed_of_reports_nil ht
    have htest := Checked.reports_option htest fun e he => (e.hasType_of_reports_nil ht he).2
    have hupdate : ∀ n ∈ _, Node.IsTypedStatement t result n :=
      Checked.reports_option hupdate fun a => a.typed_of_reports_nil ht
    have hbody := body.typed_of_reports_nil ht hbody
    rintro n ⟨⟩
    rw [(Typing.forLoop_spec _ _ _ _ span).1]
    exact .forLoop span hstart (fun n hn => ⟨htest n hn, (htest n hn).truth ht (hbool n hn)⟩)
      hupdate hbody
  | .ret value span, h => by
    rw [Stmt.check, Checked.reports_bind, Checked.reports_map, List.append_eq_nil_iff] at h
    have hvalue := Checked.reports_option h.1 fun e he => (e.hasType_of_reports_nil ht he).2
    rintro n ⟨⟩
    rcases Typing.ret_spec result (Checked.option (Expr.check t) value).value span with
      ⟨hvoid, -, heq⟩ | ⟨v, hne, hv, hnumber, heq⟩ | hr
    · rw [heq]
      exact .bareReturn span hvoid
    · have htyped := hvalue v hv
      rw [heq]
      exact .valueReturn span hne htyped (hnumber.resolve_right (htyped.ne_error ht))
    · exact absurd h.2 hr.reported

theorem Stmt.typedElse_of_reports_nil (ht : t.Sound) : ∀ (s? : Option Stmt),
    (Stmt.checkElse t result s?).reports = [] →
      ∀ n ∈ (Stmt.checkElse t result s?).value, n.IsTypedStatement t result
  | none, _ => by simp [Stmt.checkElse]
  | some s, h => by
    rw [Stmt.checkElse] at h ⊢
    exact s.typed_of_reports_nil ht h

theorem Stmt.typedBody_of_reports_nil (ht : t.Sound) : ∀ (body : List Stmt),
    (Stmt.checkBody t result body).reports = [] →
      ∀ n ∈ (Stmt.checkBody t result body).value, n.IsTypedStatement t result
  | [], _ => by simp [Stmt.checkBody]
  | s :: rest, h => by
    simp only [Stmt.checkBody, Checked.reports_bind, Checked.reports_pure,
      List.append_eq_nil_iff] at h
    have hhead := s.typed_of_reports_nil ht h.1
    have htail := Stmt.typedBody_of_reports_nil ht rest h.2.1
    rw [Stmt.checkBody, Checked.value_bind, Checked.value_bind, Checked.value_pure]
    unfold Typing.statementList
    split
    · rename_i head hs
      rintro n ⟨⟩
      exact .block _ (hhead head hs) (Stmt.checkBody_tag t result rest) htail
    · exact htail

end

/-! ## Bodies -/

/-- The items of a typed chain are typed. -/
theorem Node.IsTypedStatement.items {n : Node} (h : n.IsTypedStatement t result)
    (chain : n.tag = .cell) : ∀ item ∈ n.items, item.IsTypedStatement t result := by
  induction h with
  | @block head tail span head_typed tail_chain _ _ tail_ih =>
      intro item hitem
      cases tail with
      | none =>
          rw [Node.items, List.mem_singleton] at hitem
          rw [hitem]
          exact head_typed
      | some rest =>
          rw [Node.items] at hitem
          rcases List.mem_cons.1 hitem with rfl | hitem
          · exact head_typed
          · exact tail_ih rest rfl (tail_chain rest rfl) item hitem
  | assign | call | branch | whileLoop | forLoop | bareReturn | valueReturn => cases chain

/-- **A body that is checked without a report is typed**, with the return that is put behind it. -/
theorem Stmt.isTypedBody_appendReturn (ht : t.Sound) {body : List Stmt}
    (h : (Stmt.checkBody t result body).reports = []) (closing : Span) :
    (Node.appendReturn (Stmt.checkBody t result body).value closing).IsTypedBody t result := by
  have hchain := Stmt.typedBody_of_reports_nil ht body h
  have htag := Stmt.checkBody_tag t result body
  generalize (Stmt.checkBody t result body).value = chain at hchain htag
  have hitems : ∀ s ∈ (chain.map Node.items).getD [], s.IsTypedStatement t result := by
    cases chain with
    | none => simp
    | some n => exact (hchain n rfl).items (htag n rfl)
  obtain ⟨before, last, heq, hret, hcase⟩ := Node.appendReturn_eq chain closing
  refine ⟨before, last, heq, hret, ?_⟩
  rcases hcase with hb | ⟨hb, hlast, hno⟩
  · rw [hb] at hitems
    exact ⟨fun s hs => hitems s (List.mem_append_left _ hs),
      .inl (hitems last (List.mem_append_right _ List.mem_cons_self))⟩
  · rw [hb] at hitems
    exact ⟨hitems, .inr ⟨⟨closing, hlast⟩, hno⟩⟩

end Cmm
