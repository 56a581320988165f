import Cmm.Env
import Cmm.Grammar.Program
import Cmm.Phrase.Check

/-!
# Analysing a program

Reference model of `Parser.parse` together with the `Semantics` it calls.

* `Env.step` — what an item does: it changes the environment, it is reported on, and the body of a
  function yields its checked tree.
* `Env.run` — items one after the other.
* `Analysis.ofTokens` — a list of tokens, read and checked. A program that is read to its end leaves
  its table; one that is interrupted leaves none, and the interruption is the last report.
-/

set_option autoImplicit false

namespace Cmm

namespace Env

/-- Begins a header and adds its parameters. -/
def stage (env : Env) (name : String) (span : Span) (params : List Param) : Env :=
  params.foldl addParam (env.beginHeader name span)

/-- Declares an array whose size is still text; a size that does not fit is reported and counts as
zero. -/
def declareSized (env : Env) (name size : String) (sizeSpan span : Span) : Checked Env :=
  match Numeral.size? size with
  | some count => env.declareArray name count span
  | none => do
    .report (.oversizedArray size) sizeSpan
    env.declareArray name 0 span

/-- What an item does. -/
def step (env : Env) : Item → Checked (Option Definition × Env)
  | .external => return (none, env.markExtern)
  | .spec spec => return (none, env.setSpec spec)
  | .scalar name span => return (none, ← env.declareVariable name span)
  | .array name size sizeSpan span => return (none, ← env.declareSized name size sizeSpan span)
  | .header name span params => return (none, env.stage name span params)
  | .prototype => return (none, ← env.prototype)
  | .endPrototypes => return (none, env.endPrototypes)
  | .beginBody => return (none, ← env.beginBody)
  | .body body closing => do
    let tree ← Stmt.checkBody env.table env.frame.result body
    return env.finish tree closing
  | .loose phrase => do
    phrase.check env.table env.frame.result
    return (none, env)

/-- Runs items one after the other, and gathers the finished functions. -/
def run (env : Env) : List Item → Checked (List Definition × Env)
  | [] => return ([], env)
  | item :: rest => do
    let (definition?, env) ← env.step item
    let (definitions, env) ← env.run rest
    return (definition?.toList ++ definitions, env)

end Env

/-- What is known of a program that was read and checked. -/
structure Analysis where
  /-- The table at the end of a program that was not interrupted. -/
  table? : Option Table
  reports : List (Report Fault)
  /-- The finished functions in source order. -/
  definitions : List Definition

namespace Analysis

/-- What is known of a program from its items. -/
def ofReading (r : Reading) : Analysis :=
  let checked := Env.empty.run r.items
  let reports := checked.reports.map (·.map Fault.semantic)
  let (definitions, env) := checked.value
  match r.fault? with
  | none => ⟨some env.table, reports, definitions⟩
  | some f => ⟨none, reports ++ [⟨.syntactic f, f.found.span⟩], definitions⟩

/-- Reads and checks a list of tokens. -/
def ofTokens (tokens : List Token) : Analysis := ofReading (.ofTokens tokens)

end Analysis

end Cmm
