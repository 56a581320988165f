import Mathlib.Logic.Function.Basic
import Cmm.Cursor
import Cmm.Fault

/-!
# Other names and places

A program keeps its meaning when its names are exchanged for others, one for one, and when its parts
stand at other places. Both changes are one here.

* `Relabel` — a change of names and places. Different names stay different, and the hull of two
  spans goes to the hull of theirs.
* `Relabel.token`, `Relabel.expr`, `Relabel.stmt`, `Relabel.item` — the change carried through what
  is read; only identifiers bear names.
* `Relabel.fault`, `Relabel.report` — the change carried through what is reported; the code of a
  fault stays as it is.
* `Relabel.unplaced` — every place is forgotten; `Relabel.renamed` — the names alone are changed.
-/

set_option autoImplicit false

namespace Cmm

/-- A change of names and places: names go to names one for one, and spans to spans so that hulls
and the end marks behind spans go along. -/
structure Relabel where
  name : String → String
  place : Span → Span
  injective : Function.Injective name
  hull : ∀ a b : Span, place (a.hull b) = (place a).hull (place b)
  start : place ⟨0, 0⟩ = ⟨0, 0⟩
  stop : ∀ s : Span, place ⟨s.stop, 0⟩ = ⟨(place s).stop, 0⟩

namespace Relabel

/-- Names stay, and every span goes to the empty one at the beginning. -/
def unplaced : Relabel where
  name := id
  place := fun _ => ⟨0, 0⟩
  injective := Function.injective_id
  hull := fun _ _ => rfl
  start := rfl
  stop := fun _ => rfl

/-- Places stay, and names are changed one for one. -/
def renamed (f : String → String) (hf : Function.Injective f) : Relabel where
  name := f
  place := id
  injective := hf
  hull := fun _ _ => rfl
  start := rfl
  stop := fun _ => rfl

variable (r : Relabel)

theorem name_eq_iff {x y : String} : r.name x = r.name y ↔ x = y := r.injective.eq_iff

/-! ## Tokens -/

/-- The text of a token: identifiers bear names, and other tokens keep their text. -/
def lexeme : Kind → String → String
  | .identifier, text => r.name text
  | _, text => text

def token (t : Token) : Token := ⟨t.kind, r.lexeme t.kind t.lexeme, r.place t.span⟩

@[simp] theorem kind_token (t : Token) : (r.token t).kind = t.kind := rfl

@[simp] theorem span_token (t : Token) : (r.token t).span = r.place t.span := rfl

theorem lexeme_token {t : Token} (h : t.kind = .identifier) :
    (r.token t).lexeme = r.name t.lexeme := by
  simp only [token, h, lexeme]

theorem lexeme_token_of_ne {t : Token} (h : t.kind ≠ .identifier) :
    (r.token t).lexeme = t.lexeme := by
  unfold token lexeme
  split
  · rename_i hk
    exact absurd hk h
  · rfl

theorem token_endAt (s : Span) : r.token (.endAt s.stop) = .endAt (r.place s).stop := by
  simp only [token, Token.endAt, lexeme, r.stop]

/-! ## Phrases -/

mutual

def expr (r : Relabel) : Expr → Expr
  | .int text span => .int text (r.place span)
  | .char value span => .char value (r.place span)
  | .string text span => .string text (r.place span)
  | .var name span => .var (r.name name) (r.place span)
  | .element array index span => .element (r.name array) (r.expr index) (r.place span)
  | .call callee args span => .call (r.name callee) (r.exprs args) (r.place span)
  | .unary op operand mark => .unary op (r.expr operand) (r.place mark)
  | .binary op left right => .binary op (r.expr left) (r.expr right)
  | .paren inner span => .paren (r.expr inner) (r.place span)

def exprs (r : Relabel) : List Expr → List Expr
  | [] => []
  | e :: rest => r.expr e :: r.exprs rest

end

theorem exprs_eq_map (es : List Expr) : r.exprs es = es.map r.expr := by
  induction es with
  | nil => rfl
  | cons e rest ih => rw [exprs, ih, List.map_cons]

def target : Target → Target
  | .var name span => .var (r.name name) (r.place span)
  | .element array index span => .element (r.name array) (r.expr index) (r.place span)

def assign (a : Assign) : Assign := ⟨r.target a.target, r.expr a.value, r.place a.span⟩

mutual

def stmt (r : Relabel) : Stmt → Stmt
  | .empty => .empty
  | .block body => .block (r.stmts body)
  | .assign a => .assign (r.assign a)
  | .call callee args span => .call (r.name callee) (args.map r.expr) (r.place span)
  | .branch test thenPart elsePart span =>
    .branch (r.expr test) (r.stmt thenPart) (r.stmt? elsePart) (r.place span)
  | .whileLoop test body span => .whileLoop (r.expr test) (r.stmt body) (r.place span)
  | .forLoop start test update body span =>
    .forLoop (start.map r.assign) (test.map r.expr) (update.map r.assign) (r.stmt body)
      (r.place span)
  | .ret value span => .ret (value.map r.expr) (r.place span)

def stmt? (r : Relabel) : Option Stmt → Option Stmt
  | none => none
  | some s => some (r.stmt s)

def stmts (r : Relabel) : List Stmt → List Stmt
  | [] => []
  | s :: rest => r.stmt s :: r.stmts rest

end

theorem stmts_eq_map (body : List Stmt) : r.stmts body = body.map r.stmt := by
  induction body with
  | nil => rfl
  | cons s rest ih => rw [stmts, ih, List.map_cons]

def phrase : Phrase → Phrase
  | .expr e => .expr (r.expr e)
  | .target t => .target (r.target t)
  | .assign a => .assign (r.assign a)
  | .stmt s => .stmt (r.stmt s)

/-! ## Declarations -/

def param (p : Param) : Param := ⟨r.name p.name, p.spec, p.isArray, r.place p.span⟩

def header (h : Header) : Header :=
  ⟨r.name h.name, r.place h.span, h.result, h.params.map r.param⟩

def item : Item → Item
  | .external => .external
  | .spec spec => .spec spec
  | .scalar name span => .scalar (r.name name) (r.place span)
  | .array name size sizeSpan span => .array (r.name name) size (r.place sizeSpan) (r.place span)
  | .header name span params => .header (r.name name) (r.place span) (params.map r.param)
  | .prototype => .prototype
  | .endPrototypes => .endPrototypes
  | .beginBody => .beginBody
  | .body body closing => .body (r.stmts body) (r.place closing)
  | .loose phrase => .loose (r.phrase phrase)

/-! ## Faults -/

def fault : SemanticFault → SemanticFault
  | .oversizedConstant text => .oversizedConstant text
  | .oversizedArray text => .oversizedArray text
  | .redeclared name previous => .redeclared (r.name name) (r.place previous)
  | .undeclaredVariable name => .undeclaredVariable (r.name name)
  | .undeclaredCallee name => .undeclaredCallee (r.name name)
  | .undeclaredProcedure name => .undeclaredProcedure (r.name name)
  | .voidVariable name => .voidVariable (r.name name)
  | .voidParameter name => .voidParameter (r.name name)
  | .notAnArray name => .notAnArray (r.name name)
  | .notAFunction name => .notAFunction (r.name name)
  | .operand operator => .operand operator
  | .assignmentTarget => .assignmentTarget
  | .assignmentValue => .assignmentValue
  | .condition found => .condition found
  | .subscript array => .subscript (r.name array)
  | .missingResult => .missingResult
  | .unexpectedResult => .unexpectedResult
  | .resultType found => .resultType found
  | .prototypeParameter name position declared defined =>
    .prototypeParameter (r.name name) position declared defined
  | .prototypeArity name declared defined => .prototypeArity (r.name name) declared defined
  | .prototypeResult name => .prototypeResult (r.name name)
  | .externalDefined name => .externalDefined (r.name name)
  | .redefined name => .redefined (r.name name)
  | .argument name position expected found => .argument (r.name name) position expected found
  | .argumentCount name expected found => .argumentCount (r.name name) expected found
  | .unusedResult name => .unusedResult (r.name name)

def syntaxFault (f : SyntaxFault) : SyntaxFault := ⟨f.expected, r.token f.found⟩

def anyFault : Fault → Fault
  | .lexical f => .lexical f
  | .syntactic f => .syntactic (r.syntaxFault f)
  | .semantic f => .semantic (r.fault f)

/-- Another name or place is no other kind of fault. -/
theorem code_anyFault (f : Fault) : (r.anyFault f).code = f.code := by
  cases f with
  | lexical f => rfl
  | syntactic f => rfl
  | semantic f => cases f <;> rfl

def report (x : Report SemanticFault) : Report SemanticFault := ⟨r.fault x.fault, r.place x.span⟩

def anyReport (x : Report Fault) : Report Fault := ⟨r.anyFault x.fault, r.place x.span⟩

/-! ## Readers -/

def cursor (c : Cursor) : Cursor := ⟨r.place c.last, c.rest.map r.token, r.token c.stop⟩

def interruption (i : Interruption) : Interruption :=
  ⟨i.complete.map r.item, r.syntaxFault i.fault⟩

theorem next_cursor (c : Cursor) : (r.cursor c).next = r.token c.next := by
  unfold Cursor.next cursor
  cases c.rest <;> rfl

theorem kindBehind_cursor (c : Cursor) : (r.cursor c).kindBehind = c.kindBehind := by
  unfold Cursor.kindBehind cursor
  cases c.rest with
  | nil => rfl
  | cons t rest => cases rest <;> rfl

theorem advance_cursor (c : Cursor) : (r.cursor c).advance = r.cursor c.advance := by
  unfold Cursor.advance cursor
  cases hrest : c.rest <;> simp [hrest]

/-- The beginning of the changed tokens is the changed beginning. -/
theorem start_map (tokens : List Token) :
    Cursor.start (tokens.map r.token) = r.cursor (.start tokens) := by
  have hend : (Cursor.isEnd ∘ r.token) = Cursor.isEnd := rfl
  have hmore : ((fun t => !Cursor.isEnd t) ∘ r.token) = fun t => !Cursor.isEnd t := rfl
  have hoffset : r.token (.endAt ((tokens.getLast?.map (·.span.stop)).getD 0)) =
      .endAt (((tokens.map r.token).getLast?.map (·.span.stop)).getD 0) := by
    rw [List.getLast?_map]
    cases tokens.getLast? with
    | none =>
        have := r.token_endAt ⟨0, 0⟩
        rw [r.start] at this
        exact this
    | some t => exact r.token_endAt t.span
  unfold Cursor.start cursor
  simp only [r.start, List.takeWhile_map, List.find?_map, hend, hmore, ← hoffset]
  cases tokens.find? Cursor.isEnd <;> rfl

end Relabel

end Cmm
