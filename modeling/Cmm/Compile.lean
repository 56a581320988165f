import Cmm.Analysis
import Cmm.Census
import Cmm.Diagnostic
import Cmm.Node.Outline
import Cmm.Scan

/-!
# Compiling a source

Reference model of `Driver.compile`.

* `Options` — which listings a run makes; they never change its outcome.
* `compile` — scans a text and, if every piece of it is a token, reads and checks it. The outcome is
  a `Summary`, or the reports of the first stage that has any.
* `Outcome.listing` — the tokens and, per finished function, its trees and its locals.
-/

set_option autoImplicit false

namespace Cmm

/-- Which listings a run makes. -/
structure Options where
  tokens : Bool
  trees : Bool
  symbols : Bool
  counts : Bool
  deriving DecidableEq, Repr

/-- What a run without reports produced. -/
structure Summary where
  /-- The number of functions with a body. -/
  functions : Nat
  counts? : Option String
  globals? : Option String
  deriving DecidableEq, Repr

/-- What a run came to, with the listings it made on the way. -/
structure Outcome where
  result : Except (List (Report Fault)) Summary
  listing : String

namespace Definition

/-- The name of the function, as it stands in the table. -/
def name (d : Definition) : String := ((d.table.get? d.callee).map (·.name)).getD "?"

/-- The trees of the statements of a body. -/
def treeListing (d : Definition) : String :=
  "=== " ++ d.name ++ " ===\n" ++
    String.join (d.body.items.map fun statement => statement.outline.text ++ "\n") ++ "\n"

/-- The locals of a function. -/
def localListing (d : Definition) : String :=
  "=== locals of " ++ d.name ++ " ===\n" ++ d.table.listing .local ++ "\n"

/-- The listings of a function. -/
def listing (d : Definition) (options : Options) : String :=
  (if options.trees then d.treeListing else "") ++
    (if options.symbols then d.localListing else "")

end Definition

/-- The listing of the tokens. -/
def Scan.listing (s : Scan) : String :=
  "=== Tokens ===\n" ++ String.join (s.tokens.map fun t => "  " ++ t.text ++ "\n") ++ "\n"

/-- The counts of finished functions. -/
def Census.ofDefinitions (definitions : List Definition) : Census :=
  definitions.foldl (fun census d => census.enter d.table d.callee d.body) .empty

namespace Analysis

/-- The summary of a program without reports that was read to its end. -/
def summary (a : Analysis) (table : Table) (options : Options) : Summary :=
  let census := Census.ofDefinitions a.definitions
  ⟨census.functions.length, if options.counts then some census.text else none,
    if options.symbols then some (table.listing .global) else none⟩

/-- What an analysed program comes to. -/
def result (a : Analysis) (options : Options) : Except (List (Report Fault)) Summary :=
  match a.table? with
  | some table => if a.reports.isEmpty then .ok (a.summary table options) else .error a.reports
  | none => .error a.reports

end Analysis

/-- Compiles a text. -/
def compile (text : String) (options : Options) : Outcome :=
  let scanned := scan text
  let tokenListing := if options.tokens then scanned.listing else ""
  if scanned.reports.isEmpty then
    let analysis := Analysis.ofTokens scanned.tokens
    ⟨analysis.result options,
      tokenListing ++ String.join (analysis.definitions.map (·.listing options))⟩
  else ⟨.error (scanned.reports.map (·.map Fault.lexical)), tokenListing⟩

end Cmm
