/-!
# Types

Reference model of `ScalarType`, `Type` with its `code`, and `BaseType`.

* `Scalar` — what an array holds and a plain variable is: `int` or `char`.
* `Ty` — the type of a symbol or a tree node. `Ty.error` marks a tree that already has a report.
* `TypeSpec` — the type word of a declaration; unlike a scalar it can be `void`.
-/

set_option autoImplicit false

namespace Cmm

/-- The element type of an array, or the type of a plain variable. -/
inductive Scalar where
  | int
  | char
  deriving DecidableEq, Repr

/-- The type of a symbol or a tree node. -/
inductive Ty where
  /-- Statements, void calls, and symbols without a type yet. -/
  | void
  | int
  | char
  /-- The result of a comparison or a logical operator; no variable has it. -/
  | bool
  | array (element : Scalar)
  | function
  /-- The type of a tree that already has a report. -/
  | error
  deriving DecidableEq, Repr

/-- The one-letter code of a scalar. -/
def Scalar.code : Scalar → String
  | .int => "I"
  | .char => "C"

/-- The type of a plain variable. -/
def Scalar.ty : Scalar → Ty
  | .int => .int
  | .char => .char

namespace Ty

/-- `int` and `char` take part in arithmetic. -/
def isArith : Ty → Bool
  | .int | .char => true
  | _ => false

def isError : Ty → Bool
  | .error => true
  | _ => false

def isArray : Ty → Bool
  | .array _ => true
  | _ => false

/-- The element type of an array type. -/
def element? : Ty → Option Scalar
  | .array element => some element
  | _ => none

/-- The type as messages quote it. -/
def name : Ty → String
  | .void => "void"
  | .int => "int"
  | .char => "char"
  | .bool => "bool"
  | .array .int => "int[]"
  | .array .char => "char[]"
  | .function => "function"
  | .error => "<error>"

/-- The compact form used in symbol listings. -/
def code : Ty → String
  | .void => "-"
  | .int => "I"
  | .char => "C"
  | .bool => "B"
  | .array element => element.code ++ "[]"
  | .function => "F"
  | .error => "?"

end Ty

/-- The type word of a declaration. -/
inductive TypeSpec where
  | int
  | char
  | void
  deriving DecidableEq, Repr

namespace TypeSpec

/-- The scalar a type word names; `void` names none. -/
def scalar? : TypeSpec → Option Scalar
  | .int => some .int
  | .char => some .char
  | .void => none

def ty : TypeSpec → Ty
  | .int => .int
  | .char => .char
  | .void => .void

/-- The word as it is written. -/
def name (spec : TypeSpec) : String := spec.ty.name

end TypeSpec

end Cmm
