import Cmm.Compile

/-!
# The command line

Reference model of `Args`, `Driver.from_path` and `main`.

* `CommandLine.accepts` — the name of a source ends in `.c` or `.cm`.
* `File` — what was found under that name.
* `CommandLine.run` — what a run writes and the exit code it ends with.
* `CommandLine.ofArguments?` — the source and the listings that the arguments ask for.
* `CommandLine.usesColour` — whether messages are coloured.
-/

set_option autoImplicit false

namespace Cmm

/-- What was found under a file name. -/
inductive File where
  | missing
  /-- The file cannot be read, for a reason that the system words. -/
  | unreadable (reason : String)
  | bytes (contents : ByteArray)

/-- What a run writes and the exit code it ends with. -/
structure Response where
  exit : Nat
  stdout : String
  stderr : String
  deriving DecidableEq, Repr

namespace CommandLine

/-- The components of a path, last to first; empty ones and single dots in between say nothing. -/
def components (path : String) : List (List Char) :=
  let parts := path.toList.foldr (fun c rest =>
    if c = '/' then [] :: rest
    else match rest with
      | [] => [[c]]
      | part :: others => (c :: part) :: others) [[]]
  (parts.filter (· ≠ [])).reverse

/-- The last component of a path that names a file. -/
def fileName? (path : String) : Option (List Char) :=
  match (components path).dropWhile (· == ['.']) with
  | name :: _ => if name = ['.', '.'] then none else some name
  | [] => none

/-- What follows the last dot of a file name, if something precedes that dot. -/
def extension? (path : String) : Option String := do
  let name ← fileName? path
  let reversed := name.reverse
  let ending := reversed.takeWhile (· ≠ '.')
  match reversed.dropWhile (· ≠ '.') with
  | _ :: _ :: _ => some (String.ofList ending.reverse)
  | _ => none

/-- The extensions of sources. -/
def extensions : List String := ["c", "cm"]

/-- Whether a path names a source. -/
def accepts (path : String) : Bool := (extension? path).any extensions.contains

/-- A run that ends before it compiles anything. -/
def refuse (colour : Bool) (message : String) : Response :=
  ⟨1, "", Run.render colour [.styled .boldRed "error", .plain (": " ++ message ++ "\n")]⟩

/-- The text of a file, or why there is none. -/
def contents (file : File) : Except String String :=
  match file with
  | .missing => .error "No such file or directory (os error 2)"
  | .unreadable reason => .error reason
  | .bytes bytes =>
    match String.fromUTF8? bytes with
    | some text => .ok text
    | none => .error "stream did not contain valid UTF-8"

/-- What is written when a program compiles. -/
def success (colour : Bool) (path : String) (summary : Summary) (listing : String) : Response :=
  let globals :=
    match summary.globals? with
    | some text => "=== globals ===\n" ++ text
    | none => ""
  let plural := if summary.functions = 1 then "" else "s"
  let line := Run.render colour [.styled .boldGreen "checked",
    .plain (": " ++ path ++ " (" ++ toString summary.functions ++ " function" ++ plural ++ ")\n")]
  ⟨0, summary.counts?.getD "" ++ line, listing ++ globals⟩

/-- What is written when a program does not compile. -/
def failure (colour : Bool) (src : Source) (reports : List (Report Fault)) (listing : String) :
    Response :=
  let diagnostics := reports.map fun r => (r.diagnostic src).render colour ++ "\n"
  let plural := if reports.length = 1 then "" else "s"
  let line := Run.render colour [.plain "\n",
    .styled .boldRed (toString reports.length ++ " error" ++ plural), .plain " generated\n"]
  ⟨1, "", listing ++ String.join diagnostics ++ line⟩

/-- A run on a file. The name is judged before the file. -/
def run (path : String) (file : File) (options : Options) (colour : Bool) : Response :=
  if !accepts path then
    refuse colour ("input file must have a .c or .cm extension: " ++ path)
  else match contents file with
    | .error reason => refuse colour ("could not read file '" ++ path ++ "': " ++ reason)
    | .ok text =>
      let outcome := compile text options
      match outcome.result with
      | .ok summary => success colour path summary outcome.listing
      | .error reports => failure colour (.ofText path text) reports outcome.listing

/-- The listings a run makes where no flag asks for any. -/
def noListings : Options := ⟨false, false, false, false⟩

/-- Reads one argument: a flag asks for a listing, anything else is the source. -/
def addArgument (asked : Option String × Options) (argument : String) :
    Option (Option String × Options) :=
  let (path?, options) := asked
  match argument with
  | "--dump-tokens" => some (path?, { options with tokens := true })
  | "--dump-ast" => some (path?, { options with trees := true })
  | "--dump-symtab" => some (path?, { options with symbols := true })
  | "--stats" => some (path?, { options with counts := true })
  | path => if path.startsWith "-" || path?.isSome then none else some (some path, options)

/-- The source and the listings that the arguments ask for; there is exactly one source. -/
def ofArguments? (arguments : List String) : Option (String × Options) := do
  let (path?, options) ← arguments.foldlM addArgument (none, noListings)
  return (← path?, options)

/-- Whether a variable of the system says yes; one that is not set says nothing. -/
def affirms? (setting : Option String) : Option Bool := setting.map (· ≠ "0")

/-- Whether messages are coloured: if colour is forced, or if it is not refused and the output is
a terminal. -/
def usesColour (forced refused wanted : Option String) (terminal : Bool) : Bool :=
  affirms? forced == some true ||
    (refused.isNone && (affirms? wanted).getD true && terminal)

end CommandLine

end Cmm
