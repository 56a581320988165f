import Cmm.Proofs.Actions
import Cmm.Proofs.Handover.Items
import Cmm.Proofs.Table.Names

/-!
# Environments in front of a declaration and in a body

* `Env.Rests` — in front of a declaration nothing is local.
* `Env.Declares` — in a body the frame names the function, and the locals are the names that are
  declared so far. A header leads there from rest, a variable keeps it.
-/

set_option autoImplicit false

namespace Cmm

/-- Parameters declare their names one after the other. -/
theorem Param.foldl_declare (ps : List Param) (state : TypeSpec × List String) :
    (ps.foldl Param.declare state).2 = state.2 ++ ps.flatMap Param.declares := by
  induction ps generalizing state with
  | nil => exact (List.append_nil _).symm
  | cons p rest ih =>
      rw [List.foldl_cons, ih, List.flatMap_cons, ← List.append_assoc]
      congr 1
      unfold Param.declare Param.declares Token.declareName
      dsimp only
      split
      · exact (List.append_nil _).symm
      · rfl

/-- The item declares a variable or an array. -/
def Item.isObject : Item → Bool
  | .scalar _ _ | .array _ _ _ _ => true
  | _ => false

namespace Env

variable {env : Env} {item : Item} {items : List Item} {name : String}
  {state : TypeSpec × List String}

/-- The environment behind a header and its parameters. -/
theorem stage_eq (env : Env) (name : String) (span : Span) (params : List Param) :
    env.stage name span params = ⟨env.table, { env.frame with
      scope := .local
      result := env.frame.spec
      header? := some ⟨name, span, env.frame.spec, params⟩ }⟩ := by
  have hparams : ∀ (before : List Param) (begun : Env),
      begun.frame.header? = some ⟨name, span, env.frame.spec, before⟩ →
      params.foldl addParam begun = ⟨begun.table, { begun.frame with
        header? := some ⟨name, span, env.frame.spec, before ++ params⟩ }⟩ := by
    induction params with
    | nil =>
        intro before begun hbegun
        rw [List.append_nil, ← hbegun]
        rfl
    | cons p rest ih =>
        intro before begun hbegun
        have hadded : (begun.addParam p).frame.header? =
            some ⟨name, span, env.frame.spec, before ++ [p]⟩ := by
          show begun.frame.header?.map _ = _
          rw [hbegun]
          rfl
        rw [List.foldl_cons, ih _ _ hadded, List.append_assoc]
        rfl
  exact hparams [] _ rfl

/-! ## Runs without a body -/

/-- Only a body hands a function over. -/
theorem definitions_bodiless (h : Bodiless items) : (env.run items).value.1 = [] := by
  induction items generalizing env with
  | nil => rfl
  | cons item rest ih =>
      obtain ⟨hitem, hrest⟩ := List.forall_mem_cons.1 h
      rw [definitions_cons, ih hrest, List.append_nil]
      cases item with
      | body body closing => cases hitem
      | external | spec | scalar | array | header | prototype | endPrototypes | beginBody | loose =>
          rfl

/-! ## Variables -/

/-- An object is declared in the frame that is there. -/
theorem frame_step_object {item : Item} (object : item.isObject = true) (env : Env) :
    (env.step item).value.2.frame = env.frame := by
  cases item with
  | scalar name span => exact frame_declareWith env name span _
  | array name size sizeSpan span =>
      show (env.declareSized name size sizeSpan span).value.frame = _
      rw [value_declareSized]
      exact frame_declareWith env name span _
  | _ => cases object

/-- A variable leaves the frame as it is, but for the type word. -/
theorem frame_step_variable (hitem : item.IsVariable) (env : Env) :
    ∃ spec, (env.step item).value.2.frame = { env.frame with spec } := by
  cases hitem with
  | spec spec => exact ⟨spec, rfl⟩
  | scalar | array => exact ⟨env.frame.spec, frame_step_object rfl env⟩

theorem frame_after_variables (hitems : ∀ item ∈ items, item.IsVariable) (env : Env) :
    ∃ spec, (env.after items).frame = { env.frame with spec } := by
  induction items generalizing env with
  | nil => exact ⟨env.frame.spec, rfl⟩
  | cons item rest ih =>
      obtain ⟨hitem, hrest⟩ := List.forall_mem_cons.1 hitems
      obtain ⟨between, hstep⟩ := frame_step_variable hitem env
      obtain ⟨spec, hafter⟩ := ih hrest (env.step item).value.2
      refine ⟨spec, ?_⟩
      rw [after_cons, hafter, hstep]

/-! ## In front of a declaration -/

/-- In front of a declaration, declarations go to the program and nothing is local. -/
structure Rests (env : Env) : Prop where
  edits : Table.empty.Edits env.table
  scope : env.frame.scope = .global
  locals : env.table.locals.entries = #[]

theorem Rests.empty : Env.empty.Rests := ⟨.refl, rfl, rfl⟩

theorem rests_close (h : Table.empty.Edits env.table) : env.close.Rests := ⟨h.tail .clear, rfl, rfl⟩

theorem Rests.lists (h : env.Rests) : env.table.Lists .local [] := by
  show env.table.locals.entries.toList.map _ = _
  rw [h.locals]
  rfl

/-- A variable of the program is not local. -/
theorem Rests.declareWith (h : env.Rests) (name : String) (span : Span)
    {give : Scalar → Symbol → Symbol}
    (edits : env.table.Edits (env.declareWith name span give).value.table) :
    (env.declareWith name span give).value.Rests := by
  have hne : env.frame.scope ≠ .local := by simp [h.scope]
  refine ⟨h.edits.trans edits, ?_, ?_⟩
  · rw [frame_declareWith]
    exact h.scope
  · rw [← h.locals]
    exact congrArg Bindings.entries (bindings_declareWith env name span give hne)

theorem Rests.step (h : env.Rests) (hitem : item.IsVariable) : (env.step item).value.2.Rests := by
  cases hitem with
  | spec => exact ⟨h.edits, h.scope, h.locals⟩
  | scalar name span => exact h.declareWith name span (edits_declareVariable env name span)
  | array name size sizeSpan span =>
      show (env.declareSized name size sizeSpan span).value.Rests
      rw [value_declareSized]
      exact h.declareWith name span (edits_declareArray env name _ span)

theorem Rests.after (h : env.Rests) (hitems : ∀ item ∈ items, item.IsVariable) :
    (env.after items).Rests := by
  induction items generalizing env with
  | nil => exact h
  | cons item rest ih =>
      obtain ⟨hitem, hrest⟩ := List.forall_mem_cons.1 hitems
      exact ih (h.step hitem) hrest

/-! ## In a body -/

/-- In the body of a function the frame names the function, and the locals are the names that are
declared so far. -/
structure Declares (env : Env) (name : String) (state : TypeSpec × List String) : Prop where
  edits : Table.empty.Edits env.table
  scope : env.frame.scope = .local
  spec : env.frame.spec = state.1
  callee : ∃ callee s, env.frame.callee? = some callee ∧ callee.scope = .global ∧
    env.table.get? callee = some s ∧ s.name = name
  locals : env.table.Lists .local state.2

theorem Declares.chained (h : env.Declares name state) : env.table.Chained :=
  h.edits.chained .empty

/-- A local variable is declared behind the names that are there. -/
theorem Declares.declareWith (h : env.Declares name state) (object : String) (span : Span)
    {give : Scalar → Symbol → Symbol}
    (edits : env.table.Edits (env.declareWith object span give).value.table)
    (keeps : ∀ scalar s, (give scalar s).name = s.name) :
    (env.declareWith object span give).value.Declares name (Token.declareName state object) := by
  have hlocals : (env.declareWith object span give).value.table.Lists .local
      (Token.declareName state object).2 := by
    unfold Env.declareWith Env.scalar Token.declareName
    simp only [Checked.value_bind, Checked.value_pure, h.spec]
    have hinsert : (env.table.insert object env.frame.scope span).value.2.Lists .local
        (state.2 ++ [object]) := by
      rw [h.scope]
      exact h.locals.insert h.chained object .local span
    cases hspec : state.1 with
    | void => exact h.locals
    | int | char => exact hinsert.modify _ (keeps _)
  have hframe := frame_declareWith env object span give
  have hspec : (Token.declareName state object).1 = state.1 := by
    unfold Token.declareName
    split <;> rfl
  obtain ⟨callee, s, hcallee, hglobal, hs, hname⟩ := h.callee
  obtain ⟨s', hs', hname'⟩ := edits.get?_global hglobal hs
  refine ⟨h.edits.trans edits, ?_, ?_, ⟨callee, s', ?_, hglobal, hs', hname'.trans hname⟩, hlocals⟩
  · rw [hframe, h.scope]
  · rw [hframe, h.spec, hspec]
  · rw [hframe, hcallee]

theorem Declares.step (h : env.Declares name state) (hitem : item.IsVariable) :
    (env.step item).value.2.Declares name (item.declare state) := by
  cases hitem with
  | spec spec => exact ⟨h.edits, h.scope, rfl, h.callee, h.locals⟩
  | scalar object span =>
      exact h.declareWith object span (edits_declareVariable env object span) fun _ _ => rfl
  | array object size sizeSpan span =>
      show (env.declareSized object size sizeSpan span).value.Declares name _
      rw [value_declareSized]
      exact h.declareWith object span (edits_declareArray env object _ span) fun _ _ => rfl

theorem Declares.after (h : env.Declares name state) (hitems : ∀ item ∈ items, item.IsVariable) :
    (env.after items).Declares name (items.foldl Item.declare state) := by
  induction items generalizing env state with
  | nil => exact h
  | cons item rest ih =>
      obtain ⟨hitem, hrest⟩ := List.forall_mem_cons.1 hitems
      exact ih (h.step hitem) hrest

/-- At the end of a body its function is handed over with the locals. -/
theorem Declares.handed (h : env.Declares name state) (body : List Stmt) (closing : Span) :
    ∃ d, (env.step (.body body closing)).value.1 = some d ∧ d.callee.scope = .global ∧
      (∃ s, d.table.get? d.callee = some s ∧ s.scope = .global ∧ s.name = name) ∧
      d.table.Lists .local state.2 := by
  obtain ⟨callee, s, hcallee, hglobal, hs, hname⟩ := h.callee
  have hscope : s.scope = .global := ((h.edits.placed .empty) callee s hs).trans hglobal
  let tree := Node.appendReturn (Stmt.checkBody env.table env.frame.result body).value closing
  refine ⟨⟨callee, tree, env.table⟩, ?_, hglobal, ⟨s, hs, hscope, hname⟩, h.locals⟩
  show env.frame.callee?.map _ = some _
  rw [hcallee]
  rfl

/-- Where a body begins, the function and the parameters of its header are in the table. -/
theorem beginBody_stage (env : Env) (name : String) (span : Span) (params : List Param) :
    let entered := env.table.record ⟨name, span, env.frame.spec, params⟩ .local
      env.frame.isExtern .definition
    (env.stage name span params).beginBody.value = ⟨entered.value.2, { env.frame with
      scope := .local
      result := env.frame.spec
      header? := none
      callee? := some entered.value.1 }⟩ := by
  have hrecord := @record_of_some (env.stage name span params)
    ⟨name, span, env.frame.spec, params⟩ .definition (by rw [stage_eq])
  dsimp only at hrecord ⊢
  unfold beginBody
  rw [Checked.value_bind, hrecord.1, stage_eq]
  rfl

/-- From rest, the header of a function leads to its body, where its parameters are declared. -/
theorem Rests.begin (h : env.Rests) (spec : TypeSpec) (name : String) (span : Span)
    (params : List Param) :
    (env.after [.spec spec, .header name span params, .beginBody]).Declares name
      (spec, (params.foldl Param.declare (.void, [])).2) := by
  have hafter : env.after [.spec spec, .header name span params, .beginBody] =
      ((env.setSpec spec).stage name span params).beginBody.value := rfl
  obtain ⟨hglobal, s, hs, hname⟩ :=
    env.table.record_callee ⟨name, span, spec, params⟩ .local env.frame.isExtern .definition
  have hlists := h.lists.record (h.edits.chained .empty) ⟨name, span, spec, params⟩ .local
    env.frame.isExtern .definition
  rw [hafter, beginBody_stage, Param.foldl_declare]
  refine ⟨?_, rfl, rfl, ⟨_, s, rfl, hglobal, hs, hname⟩, hlists⟩
  exact h.edits.trans (Table.growths_record ..).edits

end Env

end Cmm
