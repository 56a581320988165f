import Cmm.Quoted
import Cmm.Source
import Cmm.Token

/-!
# Faults

Reference model of the diagnostics that `Scanner`, `Parser` and `Semantics` report.

What can be wrong with a program, by the stage that finds it. Each fault has a code, a message, and
where it helps a hint and notes.

* `LexicalFault` — a piece of text that is no token.
* `SyntaxFault` — the token at which no program continues; it ends the reading.
* `SemanticFault` — a program that reads well but breaks a rule of the language.
* `Fault` — any of them; `Report` — a fault with the span it is about.
-/

set_option autoImplicit false

namespace Cmm

/-- The constants that are written in quotes. -/
inductive QuotedConstant where
  | string
  | char
  deriving DecidableEq, Repr

def QuotedConstant.name : QuotedConstant → String
  | .string => "string constant"
  | .char => "character constant"

/-- A piece of text that is no token. -/
inductive LexicalFault where
  | unexpected (c : Char)
  | openComment
  | openString
  /-- A character constant without its closing quote; `started` if a character precedes the gap. -/
  | openChar (started : Bool)
  | emptyChar
  | badEscape (constant : QuotedConstant)
  /-- Digits that run on into a word. -/
  | badNumber (lexeme : String)
  deriving DecidableEq, Repr

namespace LexicalFault

def code : LexicalFault → String
  | .unexpected _ | .openComment => "E001"
  | .openString => "E002"
  | .openChar _ | .emptyChar => "E003"
  | .badEscape _ => "E004"
  | .badNumber _ => "E005"

def message : LexicalFault → String
  | .unexpected c => "unexpected character '" ++ Quoted.char c ++ "'"
  | .openComment => "unterminated comment"
  | .openString => "unterminated string constant"
  | .openChar _ => "unterminated character constant"
  | .emptyChar => "empty character constant"
  | .badEscape constant => "invalid " ++ constant.name
  | .badNumber lexeme => "invalid integer constant '" ++ lexeme ++ "'"

def hint? : LexicalFault → Option String
  | .openComment => some "close the comment with '*/'"
  | .openString => some "string constants cannot span multiple lines"
  | .openChar true => some "add a closing '\\'' after the character"
  | .badEscape _ => some "C-- supports the escapes \\n, \\0, \\\\, \\' and \\\" over ASCII text"
  | _ => none

end LexicalFault

/-- Where in a phrase a mark belongs. -/
inductive Place where
  | externDeclaration
  | prototype
  | functionName
  | parameterArray
  | parameters
  | declaration
  | arraySize
  | bodyStart
  | bodyEnd
  | block
  | ifWord
  | whileWord
  | forWord
  | condition
  | loopStart
  | loopTest
  | loopClauses
  | ret
  | callee
  | arguments
  | call
  | subscript
  | parenthesized
  | target
  | assignment
  deriving DecidableEq, Repr

/-- How a message words a place, behind the mark that belongs there. -/
def Place.wording : Place → String
  | .externDeclaration => " after extern declaration"
  | .prototype => " after prototype"
  | .functionName => " after function name"
  | .parameterArray => " in array parameter"
  | .parameters => " after parameters"
  | .declaration => " after declaration"
  | .arraySize => " after array size"
  | .bodyStart => " before function body"
  | .bodyEnd => " after function body"
  | .block => " after block"
  | .ifWord => " after 'if'"
  | .whileWord => " after 'while'"
  | .forWord => " after 'for'"
  | .condition => " after condition"
  | .loopStart => " after loop initializer"
  | .loopTest => " after loop condition"
  | .loopClauses => " after for clauses"
  | .ret => " after return"
  | .callee => ""
  | .arguments => " after arguments"
  | .call => " after call"
  | .subscript => " after subscript"
  | .parenthesized => " after expression"
  | .target => " in assignment"
  | .assignment => " after assignment"

/-- What a name is for. -/
inductive NameRole where
  | declared
  | function
  | parameter
  | object
  deriving DecidableEq, Repr

def NameRole.wording : NameRole → String
  | .declared => "identifier after type"
  | .function => "function name"
  | .parameter => "parameter name"
  | .object => "variable name"

/-- What a program could continue with. -/
inductive Expected where
  | mark (mark : Punct) (place : Place)
  | arraySize
  | expression
  | statement
  | type
  | name (role : NameRole)
  deriving DecidableEq, Repr

namespace Expected

def code : Expected → String
  | .mark _ _ | .arraySize => "E100"
  | .expression => "E101"
  | .statement => "E102"
  | .type => "E103"
  | .name _ => "E104"

def wording : Expected → String
  | .mark punct place => (Kind.punct punct).describe ++ place.wording
  | .arraySize => "array size"
  | .expression => "expression"
  | .statement => "statement"
  | .type => "type"
  | .name role => role.wording

end Expected

/-- The token at which no program continues. -/
structure SyntaxFault where
  expected : Expected
  found : Token
  deriving DecidableEq, Repr

namespace SyntaxFault

def code (f : SyntaxFault) : String := f.expected.code

def message (f : SyntaxFault) : String := "syntax error: expected " ++ f.expected.wording

/-- The token that was found, with its text where the kind alone does not tell it. -/
def foundText (f : SyntaxFault) : String :=
  match f.found.kind with
  | .identifier | .intLiteral => f.found.kind.describe ++ " '" ++ f.found.lexeme ++ "'"
  | .charLiteral | .stringLiteral => f.found.kind.describe ++ " " ++ f.found.lexeme
  | kind => kind.describe

end SyntaxFault

/-- The operator of an ill-typed operation. -/
inductive Operator where
  | unary (op : UnOp)
  | binary (op : BinOp)
  deriving DecidableEq, Repr

/-- What an operator applies to, as a rule. -/
def Operator.rule : Operator → String
  | .unary .neg => "operand of unary - must be int or char"
  | .unary .not => "operand of ! must be Boolean"
  | .binary op =>
    "operands of " ++ op.spelling ++ " must be " ++
      if op.kind = .logical then "Boolean" else "int or char"

/-- A rule of the language that a program breaks. -/
inductive SemanticFault where
  | oversizedConstant (lexeme : String)
  | oversizedArray (lexeme : String)
  | redeclared (name : String) (previous : Span)
  | undeclaredVariable (name : String)
  | undeclaredCallee (name : String)
  /-- An unknown function in a call that is a statement of its own. -/
  | undeclaredProcedure (name : String)
  | voidVariable (name : String)
  | voidParameter (name : String)
  | notAnArray (name : String)
  | notAFunction (name : String)
  | operand (operator : Operator)
  | assignmentTarget
  | assignmentValue
  | condition (found : Ty)
  | subscript (array : String)
  | missingResult
  | unexpectedResult
  | resultType (found : Ty)
  /-- A parameter, counted from one, that differs from that of the prototype. -/
  | prototypeParameter (name : String) (position : Nat) (declared defined : Ty)
  | prototypeArity (name : String) (declared defined : Nat)
  | prototypeResult (name : String)
  | externalDefined (name : String)
  | redefined (name : String)
  /-- An argument, counted from one, that does not suit its parameter. -/
  | argument (name : String) (position : Nat) (expected found : Ty)
  | argumentCount (name : String) (expected found : Nat)
  /-- A call for its value that stands as a statement. -/
  | unusedResult (name : String)
  deriving DecidableEq, Repr

namespace SemanticFault

def code : SemanticFault → String
  | .oversizedConstant _ | .oversizedArray _ => "E005"
  | .redeclared .. => "E200"
  | .undeclaredVariable _ | .undeclaredCallee _ | .undeclaredProcedure _ => "E201"
  | .voidVariable _ | .voidParameter _ => "E202"
  | .notAnArray _ => "E203"
  | .notAFunction _ => "E204"
  | .operand _ => "E300"
  | .assignmentTarget | .assignmentValue => "E301"
  | .condition _ => "E302"
  | .subscript _ => "E303"
  | .missingResult | .unexpectedResult | .resultType _ => "E304"
  | .prototypeParameter .. => "E400"
  | .prototypeArity .. => "E401"
  | .prototypeResult _ => "E402"
  | .externalDefined _ => "E403"
  | .redefined _ => "E404"
  | .argument .. => "E405"
  | .argumentCount .. => "E406"
  | .unusedResult _ => "E407"

def message : SemanticFault → String
  | .oversizedConstant lexeme => s!"integer constant '{lexeme}' is too large"
  | .oversizedArray lexeme => s!"array size '{lexeme}' is too large"
  | .redeclared name _ => s!"multiple declarations of {name}"
  | .undeclaredVariable name => s!"Undeclared variable: {name}"
  | .undeclaredCallee name => s!"{name} undeclared"
  | .undeclaredProcedure name => s!"undeclared identifier {name}"
  | .voidVariable name => s!"Illegal type [void] for variable {name}"
  | .voidParameter name => s!"Illegal type [void] for identifier {name}"
  | .notAnArray name => s!"{name} not declared as an array"
  | .notAFunction name => s!"{name} is not a function"
  | .operand operator => operator.rule
  | .assignmentTarget => "invalid LHS in assignment"
  | .assignmentValue => "invalid RHS in assignment"
  | .condition _ => "conditional does not have Boolean type"
  | .subscript array => s!"subscript to array {array} must be of type int or char"
  | .missingResult => "return with no return value in non-void function"
  | .unexpectedResult => "non-void return expression in function with no return value"
  | .resultType _ => "illegal return type"
  | .prototypeParameter name position _ _ =>
    s!"function {name}: type of argument {position} does not match that of prototype"
  | .prototypeArity name _ _ =>
    s!"function {name}: no of arguments in definition does not match prototype"
  | .prototypeResult name => s!"function {name}: return type does not match that of prototype"
  | .externalDefined name => s!"function {name} was previously defined as EXTERN"
  | .redefined name => s!"Multiple prototypes/definitions for function {name}"
  | .argument name position _ _ =>
    s!"function {name}: type of argument {position} does not match the declaration"
  | .argumentCount name expected found =>
    s!"function {name}: expected {expected} argument(s), found {found}"
  | .unusedResult name => s!"non-VOID function {name} used in a statement"

/-- What notes add to the message; `place` words a span as a location. -/
def notes (place : Span → String) : SemanticFault → List String
  | .redeclared _ previous => ["previous declaration at " ++ place previous]
  | .condition found | .resultType found => ["found " ++ found.name]
  | .prototypeParameter _ _ declared defined =>
    ["prototype declares " ++ declared.name ++ ", definition has " ++ defined.name]
  | .prototypeArity _ declared defined =>
    [s!"prototype takes {declared}, definition takes {defined}"]
  | .argument _ _ expected found => ["expected " ++ expected.name ++ ", found " ++ found.name]
  | _ => []

end SemanticFault

/-- Anything that can be wrong with a program. -/
inductive Fault where
  | lexical (fault : LexicalFault)
  | syntactic (fault : SyntaxFault)
  | semantic (fault : SemanticFault)
  deriving DecidableEq, Repr

namespace Fault

def code : Fault → String
  | .lexical f => f.code
  | .syntactic f => f.code
  | .semantic f => f.code

def message : Fault → String
  | .lexical f => f.message
  | .syntactic f => f.message
  | .semantic f => f.message

def hint? : Fault → Option String
  | .lexical f => f.hint?
  | _ => none

def notes (place : Span → String) : Fault → List String
  | .lexical _ => []
  | .syntactic f => ["found " ++ f.foundText]
  | .semantic f => f.notes place

end Fault

/-- A fault with the span it is about. -/
structure Report (φ : Type) where
  fault : φ
  span : Span
  deriving DecidableEq, Repr

/-- The same report about a wider kind of fault. -/
def Report.map {φ ψ : Type} (f : φ → ψ) (r : Report φ) : Report ψ := ⟨f r.fault, r.span⟩

end Cmm
