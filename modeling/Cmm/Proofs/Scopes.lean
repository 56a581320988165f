import Cmm.Proofs.Signatures

/-!
# Where declarations go

* `Env.Action.declares`, `Env.Action.closes` — the steps that declare a variable, and those that end
  a function or a list of prototypes.
* `Env.scope_play`, `Env.callee?_play` — declarations go to the function at hand until it is ended.
* `Env.globals_act`, `Env.globals_play` — the program changes only where a header is entered and
  where a variable is declared outside of a function.
* `Env.scopes_kept_apart` — what is known of both scopes, whatever steps come in whatever order.
-/

set_option autoImplicit false

namespace Cmm.Env

namespace Action

/-- The step declares a variable. -/
def declares : Action → Bool
  | .scalar _ _ | .array _ _ _ => true
  | _ => false

/-- The step ends a function or a list of prototypes. -/
def closes : Action → Bool
  | .endPrototypes | .finish _ _ => true
  | _ => false

end Action

variable {env : Env} {action : Action} {actions : List Action}

/-! ## The scope that declarations go to -/

/-- Behind the end of a function nothing of it is left in the frame but the type word. -/
theorem frame_act_of_closes (hcloses : action.closes = true) :
    (env.act action).value.frame = env.frame.reset := by
  cases action with
  | endPrototypes | finish => rfl
  | spec | external | header | param | prototype | beginBody | scalar | array | tree =>
      cases hcloses

theorem scope_act (hlocal : env.frame.scope = .local) (hopen : action.closes = false) :
    (env.act action).value.frame.scope = .local := by
  cases action with
  | spec | external | param | tree => exact hlocal
  | header => rfl
  | prototype | beginBody =>
      show (env.record _).value.2.frame.scope = .local
      rw [frame_record]
      exact hlocal
  | scalar | array =>
      show (env.declareWith _ _ _).value.frame.scope = .local
      rw [frame_declareWith]
      exact hlocal
  | endPrototypes | finish => cases hopen

/-- Declarations go to the function until it is ended. -/
theorem scope_play (hlocal : env.frame.scope = .local)
    (hopen : ∀ action ∈ actions, action.closes = false) :
    (env.play actions).frame.scope = .local := by
  induction actions generalizing env with
  | nil => exact hlocal
  | cons action rest ih =>
      obtain ⟨hfirst, hrest⟩ := List.forall_mem_cons.1 hopen
      exact ih (scope_act hlocal hfirst) hrest

/-- A step that neither enters a header nor ends a function stays in the function at hand. -/
theorem callee?_act (hrole : action.role? = none) (hopen : action.closes = false) :
    (env.act action).value.frame.callee? = env.frame.callee? := by
  cases action with
  | spec | external | header | param | tree => rfl
  | scalar | array => exact congrArg Frame.callee? (frame_declareWith ..)
  | prototype | beginBody => cases hrole
  | endPrototypes | finish => cases hopen

theorem callee?_play (hinside : ∀ action ∈ actions, action.role? = none ∧ action.closes = false) :
    (env.play actions).frame.callee? = env.frame.callee? := by
  induction actions generalizing env with
  | nil => rfl
  | cons action rest ih =>
      obtain ⟨⟨hrole, hopen⟩, hrest⟩ := List.forall_mem_cons.1 hinside
      exact (ih hrest).trans (callee?_act hrole hopen)

/-- A header begins a function. -/
theorem scope_begun (env : Env) (name : String) (span : Span) (params : List Param) :
    (env.play (.header name span :: (params.map .param ++ [.beginBody]))).frame.scope = .local := by
  rw [play_cons]
  refine scope_play rfl fun action hmem => ?_
  rcases List.mem_append.1 hmem with hparam | hbegin
  · obtain ⟨p, -, rfl⟩ := List.mem_map.1 hparam
    rfl
  · cases List.mem_singleton.1 hbegin
    rfl

/-! ## The program -/

/-- A step that enters no header and declares nothing in the program leaves it as it is. -/
theorem globals_act (hrole : action.role? = none)
    (hlocal : action.declares = true → env.frame.scope = .local) :
    (env.act action).value.table.globals = env.table.globals := by
  cases action with
  | spec | external | header | param | endPrototypes | finish | tree => rfl
  | prototype | beginBody => cases hrole
  | scalar name span | array name count span =>
      have hne : env.frame.scope ≠ .global := by
        rw [hlocal rfl]
        decide
      exact bindings_declareWith env name span _ hne

/-- Steps in a function that enter no header leave the program as it is. -/
theorem globals_play (hlocal : env.frame.scope = .local)
    (hinside : ∀ action ∈ actions, action.role? = none ∧ action.closes = false) :
    (env.play actions).table.globals = env.table.globals := by
  induction actions generalizing env with
  | nil => rfl
  | cons action rest ih =>
      obtain ⟨⟨hrole, hopen⟩, hrest⟩ := List.forall_mem_cons.1 hinside
      rw [play_cons, ih (scope_act hlocal hopen) hrest]
      exact globals_act hrole fun _ => hlocal

/-- **What is declared in a function stays in it**, whatever steps come in whatever order. As long
as declarations go to the program, nothing is local, no header is staged and no function is at hand.
The end of a function or of a list of prototypes leads back there, and the next declaration is not
external. Only the steps that enter a header, and declarations outside of a function, change the
program; so behind a function definition the program is as it was where the body began. -/
theorem scopes_kept_apart (steps : List Action) :
    let env := Env.empty.play steps
    (env.frame.scope = .global → env.Idle) ∧
      (∀ action : Action, action.closes = true →
        let reached := (env.act action).value
        reached.frame.scope = .global ∧ reached.frame.isExtern = false) ∧
      (∀ action : Action, action.role? = none →
        (action.declares = true → env.frame.scope = .local) →
          (env.act action).value.table.globals = env.table.globals) ∧
      ∀ (name : String) (span : Span) (params : List Param) (body : List Action)
        (tree : Option Node) (closing : Span),
        (∀ action ∈ body, action.role? = none ∧ action.closes = false) →
          let begun := env.play (.header name span :: (params.map .param ++ [.beginBody]))
          (begun.play (body ++ [.finish tree closing])).table.globals = begun.table.globals := by
  intro env
  refine ⟨(scoped_play steps).idle, ?_, fun action => globals_act, ?_⟩
  · intro action hcloses reached
    have hframe : reached.frame = env.frame.reset := frame_act_of_closes hcloses
    rw [hframe]
    exact ⟨rfl, rfl⟩
  · intro name span params body tree closing hinside begun
    have hbegun : begun.frame.scope = .local := scope_begun env name span params
    rw [play_append]
    exact globals_play hbegun hinside

end Cmm.Env
