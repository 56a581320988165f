import Cmm.Span
import Cmm.Ty

/-!
# Symbols

Reference model of `Scope`, `Formal`, `FunctionInfo` with `ProtoState`, `Symbol` and `SymbolRef`.

* `Scope` — names live in the whole program or in one function.
* `Formal`, `Signature` — what is recorded of a function: its parameters, its result, whether it is
  external, and its `Standing` between prototype and definition.
* `Symbol` — a declared name; `Symbol.text` is its line in a symbol listing.
* `Handle` — refers to a symbol by scope and index. The generation ties it to the time between two
  clearings of the scope.
-/

set_option autoImplicit false

namespace Cmm

/-- Where a name lives. -/
inductive Scope where
  /-- The whole program. -/
  | global
  /-- One function. -/
  | «local»
  deriving DecidableEq, Repr

def Scope.name : Scope → String
  | .global => "global"
  | .local => "local"

/-- The one-letter code of a scope. -/
def Scope.code : Scope → String
  | .global => "G"
  | .local => "L"

/-- How far the declaration of a function has come. -/
inductive Standing where
  | undeclared
  | prototyped
  | defined
  deriving DecidableEq, Repr

/-- A parameter as the signature keeps it: a copy of its symbol, which outlives the scope. -/
structure Formal where
  name : String
  scope : Scope
  isFormal : Bool
  ty : Ty
  deriving DecidableEq, Repr

/-- What is recorded of a function. -/
structure Signature where
  result : TypeSpec
  formals : List Formal
  standing : Standing
  isExtern : Bool
  deriving DecidableEq, Repr

/-- A declared name. -/
structure Symbol where
  name : String
  scope : Scope
  ty : Ty
  /-- The number of elements of an array that is not a parameter. -/
  count? : Option Nat
  isFormal : Bool
  signature? : Option Signature
  /-- The place of the declaration. -/
  span : Span
  deriving DecidableEq, Repr

namespace Symbol

/-- A name that is declared but has no type yet. -/
def fresh (name : String) (scope : Scope) (span : Span) : Symbol :=
  ⟨name, scope, .void, none, false, none, span⟩

def isFunction (s : Symbol) : Bool := s.ty == .function

/-- The result type of a function. -/
def result? (s : Symbol) : Option TypeSpec := s.signature?.map (·.result)

/-- The parameters of a function; a name without a signature has none. -/
def formals (s : Symbol) : List Formal := (s.signature?.map (·.formals)).getD []

def standing (s : Symbol) : Standing := (s.signature?.map (·.standing)).getD .undeclared

/-- The symbol as a signature keeps it. -/
def formal (s : Symbol) : Formal := ⟨s.name, s.scope, s.isFormal, s.ty⟩

end Symbol

/-- The parameters and the result of a function in compact form. -/
def Signature.text (sig : Signature) : String :=
  let params :=
    if sig.formals.isEmpty then "void" else ", ".intercalate (sig.formals.map (·.ty.code))
  let result := if sig.result = .void then "void" else sig.result.ty.code
  "(" ++ params ++ ") -> " ++ result

namespace Symbol

/-- The type of a symbol in compact form: `I`, `C[10]`, `(I, C[]) -> void`. -/
def typeText (s : Symbol) : String :=
  match s.ty, s.count?, s.signature? with
  | .array element, some n, _ => element.code ++ "[" ++ toString n ++ "]"
  | .function, _, some sig => sig.text
  | ty, _, _ => ty.code

/-- The line of a symbol in a listing. -/
def text (s : Symbol) : String :=
  let mark := if s.isFormal then "<formal param>" else ""
  ">> " ++ s.name ++ ": scope = " ++ s.scope.code ++ mark ++ "; type: " ++ s.typeText

end Symbol

/-- Refers to a symbol. -/
structure Handle where
  scope : Scope
  index : Nat
  /-- How often the scope had been cleared when the handle was made, modulo `2 ^ 32`. -/
  generation : UInt32
  deriving DecidableEq, Repr

/-- Why a handle refers to nothing. -/
inductive HandleFault where
  /-- The scope was cleared after the handle was made. -/
  | stale (scope : Scope) (made current : UInt32)
  /-- The scope has no such symbol. -/
  | missing (scope : Scope) (index : Nat)
  deriving DecidableEq, Repr

def HandleFault.message : HandleFault → String
  | .stale scope made current =>
    scope.name ++ " symbol handle from generation " ++ toString made ++
      " used after the scope was cleared (now " ++ toString current ++ ")"
  | .missing scope index => "no " ++ scope.name ++ " symbol at index " ++ toString index

end Cmm
