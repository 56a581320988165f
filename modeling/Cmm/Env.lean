import Cmm.Header
import Cmm.Node.Items

/-!
# The environment of declarations

Reference model of `FunctionContext` and of the steps of `Semantics` that declare: `set_type`,
`mark_extern`, `begin_function`, `add_param`, `declare_prototype`, `end_prototypes`,
`begin_definition`, `declare_variable`, `declare_array` and `finish_function`.

An environment is the symbol table with what a declaration carries from one part to the next.

* `Frame` — the scope that declarations go to, the type word, the header that is being read, the
  function whose body is being read.
* `Env` — a table and a frame, changed by one function per step of a declaration.
* `Env.finish` — ends a body: the tree with its return is handed over together with the table, and
  only then are the locals dropped.
-/

set_option autoImplicit false

namespace Cmm

/-- What a declaration carries from one part to the next. -/
structure Frame where
  /-- Where declarations go. -/
  scope : Scope
  /-- The type word of the declaration at hand. -/
  spec : TypeSpec
  /-- The header that is being read. -/
  header? : Option Header
  /-- The function whose body is being read. -/
  callee? : Option Handle
  /-- The result type of that function. -/
  result : TypeSpec
  /-- Whether the declaration at hand is external. -/
  isExtern : Bool
  deriving DecidableEq, Repr

namespace Frame

/-- The frame before any declaration. -/
def start : Frame := ⟨.global, .int, none, none, .void, false⟩

/-- The frame after a function: all but the type word is as before any declaration. -/
def reset (f : Frame) : Frame := { start with spec := f.spec }

end Frame

/-- A finished function: its symbol, its tree, and the table as it was at the end of the body. -/
structure Definition where
  callee : Handle
  body : Node
  table : Table

/-- The symbol table with what a declaration carries along. -/
structure Env where
  table : Table
  frame : Frame
  deriving DecidableEq

namespace Env

/-- Nothing is declared. -/
def empty : Env := ⟨.empty, .start⟩

/-- Reads the type word of a declaration. -/
def setSpec (env : Env) (spec : TypeSpec) : Env :=
  { env with frame := { env.frame with spec } }

/-- Marks the declaration at hand as external. -/
def markExtern (env : Env) : Env :=
  { env with frame := { env.frame with isExtern := true } }

/-- Begins a function header; declarations go to the function from here on. -/
def beginHeader (env : Env) (name : String) (span : Span) : Env :=
  let frame := { env.frame with
    scope := .local
    result := env.frame.spec
    header? := some ⟨name, span, env.frame.spec, []⟩ }
  { env with frame }

/-- Adds a parameter to the header that is being read. -/
def addParam (env : Env) (p : Param) : Env :=
  let header? := env.frame.header?.map fun h => { h with params := h.params ++ [p] }
  { env with frame := { env.frame with header? } }

/-- Enters the header that is being read; without one nothing happens. -/
def record (env : Env) (role : Role) : Checked (Option Handle × Env) :=
  match env.frame.header? with
  | none => pure (none, env)
  | some header => do
    let (callee, table) ← env.table.record header env.frame.scope env.frame.isExtern role
    return (some callee, ⟨table, { env.frame with header? := none }⟩)

/-- Drops the locals and resets the frame. -/
def close (env : Env) : Env := ⟨env.table.clear .local, env.frame.reset⟩

/-- Declares the header as a prototype; its parameters are dropped again. -/
def prototype (env : Env) : Checked Env := do
  let (_, env) ← env.record .prototype
  return { env with table := env.table.clear .local }

/-- Ends a list of prototypes. -/
def endPrototypes (env : Env) : Env := env.close

/-- Declares the header as a definition; its body follows. -/
def beginBody (env : Env) : Checked Env := do
  let (callee?, env) ← env.record .definition
  return { env with frame := { env.frame with callee? } }

/-- The scalar that a variable of the declaration at hand holds; `void` is reported. -/
def scalar (env : Env) (name : String) (span : Span) : Checked (Option Scalar) := do
  .reportIf (env.frame.spec.scalar? == none) (.voidVariable name) span
  return env.frame.spec.scalar?

/-- Declares a name and gives its symbol, new or not, the type of the declaration. -/
def declareWith (env : Env) (name : String) (span : Span) (give : Scalar → Symbol → Symbol) :
    Checked Env := do
  match ← env.scalar name span with
  | none => return env
  | some scalar =>
    let (h, table) ← env.table.insert name env.frame.scope span
    return { env with table := table.modify h (give scalar) }

/-- Declares a variable. -/
def declareVariable (env : Env) (name : String) (span : Span) : Checked Env :=
  env.declareWith name span fun scalar s => { s with ty := scalar.ty, isFormal := false }

/-- Declares an array. -/
def declareArray (env : Env) (name : String) (count : Nat) (span : Span) : Checked Env :=
  env.declareWith name span fun scalar s =>
    { s with ty := .array scalar, count? := some count, isFormal := false }

/-- Ends the body at hand. What is handed over is nothing where no function was begun. -/
def finish (env : Env) (body : Option Node) (span : Span) : Option Definition × Env :=
  (env.frame.callee?.map fun callee => ⟨callee, Node.appendReturn body span, env.table⟩, env.close)

end Env

end Cmm
