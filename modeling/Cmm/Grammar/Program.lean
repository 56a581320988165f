import Cmm.Grammar.Statement

/-!
# The grammar of programs

Reference model of `Parser.parse` with `external_declaration`, `type_keyword`, `parameter_list`,
`variable_declarations`, `variable_declarator`, `function_definition` and `statements_until_brace`.

    program     = declaration …
    declaration = type variable , … ;
                | [extern] type header , … ;
                | type header { locals statements }
    variable    = name [ [ size ] ]
    header      = name ( parameters )
    parameters  = nothing | void | type name [ [ ] ] , …
    locals      = type variable , … ; …

* `Reading.ofTokens` — the items of a program in source order. Where reading is interrupted, they
  are the items and the pieces of a body that were complete before, with the fault.
-/

set_option autoImplicit false

namespace Cmm

namespace Grammar

open Parse

/-- The type word of a declaration. -/
def typeWord : Parse TypeSpec := do
  match ← kind with
  | .typeWord spec =>
    advance
    return spec
  | _ => fail .type

/-- A variable or an array, behind its name. -/
def declarator (name : String) (span : Span) : Parse Item := do
  if ← accept (.punct .leftBracket) then
    let size ← require .intLiteral .arraySize
    expect .rightBracket .arraySize
    return .array name size.lexeme size.span (← spanFrom span)
  else
    return .scalar name span

/-- The variables of a declaration behind its first name, up to the semicolon. -/
def declarators (fuel : Nat) (name : String) (span : Span) : Parse (List Item) := do
  let first ← declarator name span
  let others ← holding [first] do
    if ← accept (.punct .comma) then
      let another : Parse Item := do
        let (name, span) ← Parse.name .object
        declarator name span
      commaSeparated another (fun item => [item]) fuel
    else
      return []
  holding (first :: others) (expect .semicolon .declaration)
  return first :: others

/-- A parameter. -/
def param : Parse Param := do
  let spec ← typeWord
  let (name, span) ← name .parameter
  let isArray ← accept (.punct .leftBracket)
  if isArray then
    expect .rightBracket .parameterArray
  return ⟨name, spec, isArray, span⟩

/-- The parameters of a function, with their parentheses. The word `void` alone means none. -/
def parameters (fuel : Nat) : Parse (List Param) := do
  expect .leftParen .functionName
  let k ← kind
  let params ←
    if k = .typeWord .void ∧ (← kindBehind) = .punct .rightParen then do
      advance
      pure []
    else if k = .punct .rightParen then pure []
    else commaSeparated param (fun _ => []) fuel
  expect .rightParen .parameters
  return params

/-- The header of a prototype that is not the first of its list. -/
def prototype (fuel : Nat) : Parse (List Item) := do
  let (name, span) ← name .function
  let params ← parameters fuel
  return [.header name span params, .prototype]

/-- The prototypes behind the first one, up to the semicolon. -/
def prototypes (fuel : Nat) : Parse (List Item) := do
  let others ←
    if ← accept (.punct .comma) then
      List.flatten <$> commaSeparated (prototype fuel) (fun items => items) fuel
    else pure []
  holding others (expect .semicolon .prototype)
  return others ++ [.endPrototypes]

/-- The declarations at the beginning of a body; the fuel bounds their number. -/
def locals (bound : Nat) : (fuel : Nat) → Parse (List Item)
  | 0 => return []
  | fuel + 1 => do
    if (← kind).isTypeWord then
      let spec ← typeWord
      let (name, span) ← name .object
      let declared ← holding [.spec spec] (declarators bound name span)
      let items := .spec spec :: declared
      return items ++ (← holding items (locals bound fuel))
    else
      return []

/-- The body of a function. -/
def functionBody (fuel : Nat) : Parse (List Item) := do
  expect .leftBrace .bodyStart
  let declared ← locals fuel fuel
  holding declared do
    let body ← statements (statement fuel) fuel
    let closing ← next
    holding (body.flatMap looseStmt) (expect .rightBrace .bodyEnd)
    return declared ++ [.body body closing.span]

/-- What follows a function header: a body, or the rest of a list of prototypes. -/
def afterHeader (fuel : Nat) (isExtern : Bool) (header : Item) : Parse (List Item) := do
  if !isExtern && (← kind) == .punct .leftBrace then
    let rest ← holding [header, .beginBody] (functionBody fuel)
    return header :: .beginBody :: rest
  else
    let rest ← holding [header, .prototype] (prototypes fuel)
    return header :: .prototype :: rest

/-- A declaration of the program. -/
def declaration (fuel : Nat) : Parse (List Item) := do
  let isExtern ← accept (.keyword .external)
  let spec ← typeWord
  let (name, span) ← name .declared
  let opening : List Item := (if isExtern then [.external] else []) ++ [.spec spec]
  holding opening do
    if (← kind) = .punct .leftParen then
      let params ← parameters fuel
      return opening ++ (← afterHeader fuel isExtern (.header name span params))
    else if isExtern then
      fail (.mark .leftParen .externDeclaration)
    else
      return opening ++ (← declarators fuel name span)

/-- Declarations up to the end of the program; the fuel bounds their number. -/
def program (bound : Nat) : (fuel : Nat) → Parse (List Item)
  | 0 => return []
  | fuel + 1 => do
    if (← kind) = .endOfFile then
      return []
    else
      let items ← declaration bound
      return items ++ (← holding items (program bound fuel))

end Grammar

/-- The items of a program, and the fault that interrupted the reading, if one did. -/
structure Reading where
  items : List Item
  fault? : Option SyntaxFault

/-- Reads a list of tokens. -/
def Reading.ofTokens (tokens : List Token) : Reading :=
  match (Grammar.program tokens.length tokens.length).run (Cursor.start tokens) with
  | .ok (items, _) => ⟨items, none⟩
  | .error i => ⟨i.complete, some i.fault⟩

end Cmm
