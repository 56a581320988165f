import Cmm.Proofs.Env

/-!
# Declaration steps in any order

A program has the steps of its declarations in a certain order. What is said here holds of every
order.

* `Env.Action` — one step; `Env.act` — what it does; `Env.play` — some of them one after the other.
* `Env.Scoped` — the table is sound, and as long as declarations go to the program, no header is
  staged, no function is at hand, and nothing is local.
* `Env.act_edits` — a step changes the table by inserting, rewriting and clearing the locals only.
* `Env.scoped_play` — every environment that steps lead to is scoped.
* `Item.actions`, `Env.after_eq_play` — the items of a program come down to such steps.
-/

set_option autoImplicit false

namespace Cmm

namespace Env

/-- One step of a declaration, of an expression or of a statement. -/
inductive Action where
  | spec (spec : TypeSpec)
  | external
  | header (name : String) (span : Span)
  | param (p : Param)
  | prototype
  | endPrototypes
  | beginBody
  | scalar (name : String) (span : Span)
  | array (name : String) (count : Nat) (span : Span)
  | finish (body : Option Node) (span : Span)
  /-- A tree is built from what the table and the result type of the function say. -/
  | tree (build : Table → TypeSpec → Checked Node)

/-- What a step does. -/
def act (env : Env) : Action → Checked Env
  | .spec spec => return env.setSpec spec
  | .external => return env.markExtern
  | .header name span => return env.beginHeader name span
  | .param p => return env.addParam p
  | .prototype => env.prototype
  | .endPrototypes => return env.endPrototypes
  | .beginBody => env.beginBody
  | .scalar name span => env.declareVariable name span
  | .array name count span => env.declareArray name count span
  | .finish body span => return (env.finish body span).2
  | .tree build => do
    let _ ← build env.table env.frame.result
    return env

/-- The environment behind some steps. -/
def play (env : Env) (actions : List Action) : Env :=
  actions.foldl (fun env action => (env.act action).value) env

variable {env : Env} {header : Header} {role : Role}

/-! ## Entering the staged header -/

theorem record_of_none (hnone : env.frame.header? = none) : env.record role = pure (none, env) := by
  unfold record
  rw [hnone]

theorem record_of_some (hsome : env.frame.header? = some header) :
    let entered := env.table.record header env.frame.scope env.frame.isExtern role
    (env.record role).value =
      (some entered.value.1, ⟨entered.value.2, { env.frame with header? := none }⟩) ∧
      (env.record role).reports = entered.reports := by
  unfold record
  rw [hsome]
  simp

theorem frame_record (env : Env) (role : Role) :
    (env.record role).value.2.frame = { env.frame with header? := none } := by
  cases hh : env.frame.header? with
  | none =>
      rw [record_of_none hh]
      show env.frame = _
      rw [← hh]
  | some header => rw [(record_of_some hh).1]

/-- A declaration touches the scope that declarations go to, and no other. -/
theorem bindings_declareWith (env : Env) (name : String) (span : Span)
    (give : Scalar → Symbol → Symbol) {scope : Scope} (hne : env.frame.scope ≠ scope) :
    (env.declareWith name span give).value.table.bindings scope = env.table.bindings scope := by
  cases hspec : env.frame.spec.scalar? with
  | none => rw [(declareWith_of_none hspec name span give).1]
  | some scalar =>
      rw [(declareWith_of_some hspec name span give).1,
        Table.bindings_modify_of_ne (by rwa [Table.scope_insert]), Table.bindings_insert_of_ne hne]

/-! ## What every step keeps -/

theorem act_edits (env : Env) (action : Action) :
    env.table.Edits (env.act action).value.table := by
  cases action with
  | spec | external | header | param | tree => exact .refl
  | prototype => exact (edits_record env .prototype).tail .clear
  | endPrototypes => exact .single .clear
  | beginBody => exact edits_record env .definition
  | scalar name span => exact edits_declareVariable env name span
  | array name count span => exact edits_declareArray env name count span
  | finish body span => exact .single .clear

/-- As long as declarations go to the program, no header is staged, no function is at hand, and
nothing is local. -/
structure Idle (env : Env) : Prop where
  header : env.frame.header? = none
  callee : env.frame.callee? = none
  result : env.frame.result = .void
  locals : env.table.locals.entries = #[]

theorem idle_close (env : Env) : env.close.Idle := ⟨rfl, rfl, rfl, rfl⟩

/-- What is known of an environment whatever steps led to it. -/
structure Scoped (env : Env) : Prop where
  sound : env.table.Sound
  placed : env.table.Placed
  idle : env.frame.scope = .global → env.Idle

theorem Scoped.empty : Env.empty.Scoped :=
  ⟨Table.Sound.empty, Table.Placed.empty, fun _ => ⟨rfl, rfl, rfl, rfl⟩⟩

/-- A staged header has its parameters in the function. -/
theorem Scoped.scope_of_header (hs : env.Scoped) (hsome : env.frame.header? = some header) :
    env.frame.scope = .local := by
  cases hscope : env.frame.scope with
  | «local» => rfl
  | global =>
      have := (hs.idle hscope).header
      rw [hsome] at this
      cases this

theorem Idle.declareWith (hi : env.Idle) (hscope : env.frame.scope = .global) (name : String)
    (span : Span) (give : Scalar → Symbol → Symbol) :
    (env.declareWith name span give).value.Idle := by
  have hframe := frame_declareWith env name span give
  have hne : env.frame.scope ≠ .local := by
    rw [hscope]
    decide
  have hlocals := bindings_declareWith env name span give hne
  refine ⟨?_, ?_, ?_, ?_⟩
  · rw [hframe, hi.header]
  · rw [hframe, hi.callee]
  · rw [hframe, hi.result]
  · exact (congrArg Bindings.entries hlocals).trans hi.locals

theorem act_idle (hs : env.Scoped) (action : Action)
    (hscope : (env.act action).value.frame.scope = .global) : (env.act action).value.Idle := by
  cases action with
  | spec spec =>
      obtain ⟨hheader, hcallee, hresult, hlocals⟩ := hs.idle hscope
      exact ⟨hheader, hcallee, hresult, hlocals⟩
  | external =>
      obtain ⟨hheader, hcallee, hresult, hlocals⟩ := hs.idle hscope
      exact ⟨hheader, hcallee, hresult, hlocals⟩
  | header name span => cases hscope
  | param p =>
      obtain ⟨hheader, hcallee, hresult, hlocals⟩ := hs.idle hscope
      refine ⟨?_, hcallee, hresult, hlocals⟩
      show env.frame.header?.map _ = none
      rw [hheader]
      rfl
  | prototype =>
      have hframe := frame_record env .prototype
      have hold : env.frame.scope = .global := by
        have : (env.record .prototype).value.2.frame.scope = .global := hscope
        rwa [hframe] at this
      obtain ⟨hheader, hcallee, hresult, -⟩ := hs.idle hold
      refine ⟨?_, ?_, ?_, rfl⟩
      · show (env.record .prototype).value.2.frame.header? = none
        rw [hframe]
      · show (env.record .prototype).value.2.frame.callee? = none
        rw [hframe, hcallee]
      · show (env.record .prototype).value.2.frame.result = .void
        rw [hframe, hresult]
  | endPrototypes => exact idle_close env
  | beginBody =>
      have hold : env.frame.scope = .global := by
        have : (env.record .definition).value.2.frame.scope = .global := hscope
        rwa [frame_record] at this
      have hrecord := @record_of_none env .definition (hs.idle hold).header
      have hvalue : (env.act .beginBody).value =
          { env with frame := { env.frame with callee? := none } } := by
        show (env.beginBody).value = _
        unfold beginBody
        rw [hrecord]
        rfl
      rw [hvalue]
      obtain ⟨hheader, -, hresult, hlocals⟩ := hs.idle hold
      exact ⟨hheader, rfl, hresult, hlocals⟩
  | scalar name span =>
      have hold : env.frame.scope = .global := by
        have : (env.declareVariable name span).value.frame.scope = .global := hscope
        unfold declareVariable at this
        rwa [frame_declareWith] at this
      exact (hs.idle hold).declareWith hold name span _
  | array name count span =>
      have hold : env.frame.scope = .global := by
        have : (env.declareArray name count span).value.frame.scope = .global := hscope
        unfold declareArray at this
        rwa [frame_declareWith] at this
      exact (hs.idle hold).declareWith hold name span _
  | finish body span => exact idle_close env
  | tree build => exact hs.idle hscope

theorem Scoped.act (hs : env.Scoped) (action : Action) : (env.act action).value.Scoped :=
  ⟨(act_edits env action).sound hs.sound, (act_edits env action).placed hs.placed,
    act_idle hs action⟩

theorem Scoped.play (hs : env.Scoped) (actions : List Action) : (env.play actions).Scoped := by
  induction actions generalizing env with
  | nil => exact hs
  | cons action rest ih => exact ih (hs.act action)

/-- **Every environment that steps lead to is scoped**, in whatever order they come. -/
theorem scoped_play (actions : List Action) : (Env.empty.play actions).Scoped :=
  Scoped.empty.play actions

theorem play_cons (env : Env) (action : Action) (rest : List Action) :
    env.play (action :: rest) = (env.act action).value.play rest := rfl

theorem play_append (env : Env) (actions rest : List Action) :
    env.play (actions ++ rest) = (env.play actions).play rest := List.foldl_append

/-! ## Programs -/

end Env

/-- The steps that an item comes down to. The tree of a body has no part in what comes behind it. -/
def Item.actions : Item → List Env.Action
  | .external => [.external]
  | .spec word => [.spec word]
  | .scalar name span => [.scalar name span]
  | .array name size _ span => [.array name ((Numeral.size? size).getD 0) span]
  | .header name span params => .header name span :: params.map .param
  | .prototype => [.prototype]
  | .endPrototypes => [.endPrototypes]
  | .beginBody => [.beginBody]
  | .body _ closing => [.finish none closing]
  | .loose _ => []

namespace Env

theorem step_eq_play (env : Env) (item : Item) :
    (env.step item).value.2 = env.play item.actions := by
  cases item with
  | external | spec | scalar | prototype | endPrototypes | beginBody | body | loose => rfl
  | array name size sizeSpan span => exact value_declareSized env name size sizeSpan span
  | header name span params =>
      show params.foldl addParam (env.beginHeader name span) =
        (env.beginHeader name span).play (params.map .param)
      unfold play
      rw [List.foldl_map]
      rfl

/-- **A run of items is a run of steps**, so that what is known of steps in any order holds of
programs. -/
theorem after_eq_play (env : Env) (items : List Item) :
    env.after items = env.play (items.flatMap Item.actions) := by
  induction items generalizing env with
  | nil => rfl
  | cons item rest ih => rw [after_cons, ih, step_eq_play, List.flatMap_cons, play_append]

theorem Scoped.after {env : Env} (hs : env.Scoped) (items : List Item) :
    (env.after items).Scoped := by
  rw [after_eq_play]
  exact hs.play _

end Env

end Cmm
