import Cmm.Table

/-!
# Function headers

Reference model of `ParamDesc`, `PendingFunction`, `SymbolTable.record_function_info` and
`check_against_prototype`.

* `Param`, `Header` — a parameter and a function header as they are written.
* `Header.differences` — where a definition differs from the prototype of the same name.
* `Table.record` — a header enters the table as a prototype or as a definition. A name that is new,
  or a prototype that meets its definition, takes the signature of the header; any other header for
  a known name is reported and leaves the signature that is there. The parameters become symbols
  either way.
-/

set_option autoImplicit false

namespace Cmm

/-- A parameter as it is written. -/
structure Param where
  name : String
  spec : TypeSpec
  isArray : Bool
  span : Span
  deriving DecidableEq, Repr

/-- The type of a parameter inside the function; `void` for one that cannot be declared. -/
def Param.ty (p : Param) : Ty :=
  match p.spec.scalar? with
  | some element => if p.isArray then .array element else element.ty
  | none => .void

/-- A function header as it is written. -/
structure Header where
  name : String
  span : Span
  result : TypeSpec
  params : List Param
  deriving DecidableEq, Repr

/-- What a header stands in front of. -/
inductive Role where
  | prototype
  | definition
  deriving DecidableEq, Repr

/-- How far a header brings its function. -/
def Role.standing : Role → Standing
  | .prototype => .prototyped
  | .definition => .defined

namespace Header

/-- The parameters, counted from `position`, whose types differ from those of the prototype. -/
def parameterDifferences (name : String) :
    (position : Nat) → List Formal → List Param → List (Report SemanticFault)
  | position, formal :: formals, param :: params =>
    let later := parameterDifferences name (position + 1) formals params
    if formal.ty = param.ty then later
    else ⟨.prototypeParameter name position formal.ty param.ty, param.span⟩ :: later
  | _, _, _ => []

/-- Reports where a definition differs from the prototype of the same name. -/
def differences (h : Header) (sig : Signature) : Checked Unit := do
  ⟨(), parameterDifferences h.name 1 sig.formals h.params⟩
  .reportIf (sig.formals.length != h.params.length)
    (.prototypeArity h.name sig.formals.length h.params.length) h.span
  .reportIf (sig.result != h.result) (.prototypeResult h.name) h.span
  .reportIf sig.isExtern (.externalDefined h.name) h.span

end Header

namespace Table

/-- Finds or declares the function of a header. The flag says whether the header may write its
signature. -/
def claim (t : Table) (h : Header) (role : Role) : Checked (Handle × Table × Bool) :=
  match t.lookup h.name .global with
  | none => do
    let (callee, t) ← t.insert h.name .global h.span
    return (callee, t, true)
  | some callee =>
    match (t.get? callee).bind (·.signature?) with
    | some sig =>
      if sig.standing = .prototyped ∧ role = .definition then do
        h.differences sig
        return (callee, t, true)
      else do
        .report (.redefined h.name) h.span
        return (callee, t, false)
    | none => do
      .report (.redefined h.name) h.span
      return (callee, t, false)

/-- Declares a parameter. A name that is there already takes its type. -/
def addFormal (t : Table) (scope : Scope) (p : Param) : Checked (Option Formal × Table) :=
  if p.spec = .void then do
    .report (.voidParameter p.name) p.span
    return (none, t)
  else do
    let (h, t) ← t.insert p.name scope p.span
    let t := t.modify h fun s => { s with isFormal := true, ty := p.ty }
    return ((t.get? h).map (·.formal), t)

/-- Declares parameters one after the other. -/
def addFormals (t : Table) (scope : Scope) : List Param → Checked (List Formal × Table)
  | [] => pure ([], t)
  | p :: rest => do
    let (formal?, t) ← t.addFormal scope p
    let (formals, t) ← t.addFormals scope rest
    return (formal?.toList ++ formals, t)

/-- Enters a header whose parameters go into `scope`. -/
def record (t : Table) (h : Header) (scope : Scope) (isExtern : Bool) (role : Role) :
    Checked (Handle × Table) := do
  let (callee, t, writes) ← t.claim h role
  let (formals, t) ← t.addFormals scope h.params
  if writes then
    let sig : Signature := ⟨h.result, formals, role.standing, isExtern⟩
    return (callee, t.modify callee fun s => { s with ty := .function, signature? := some sig })
  else
    return (callee, t)

end Table

end Cmm
