import Cmm.Proofs.Printing.Trees

/-!
# Statements print and check

A command is a statement as it is meant: its expressions are trees, and an `else` belongs to its
`if`. It is written as words, and it stands for a tree.

* `Command`, `Command.tree`, `Command.words` — commands, the trees they stand for, and their words.
  Empty statements and blocks without any other are no part of a tree.
* `Command.isOpen`, `Command.IsWritable` — a command that ends in an `if` without an `else`, and a
  command that obeys the typing rules of a function and can be written.
* `Checked.Makes` — what is checked is a given value, up to places and without a report; one lemma
  per construct.
* `Stmt.makes_body` — statements in a row make the chain of those trees that there are.
-/

set_option autoImplicit false

namespace Cmm

/-- An assignment as it is meant. -/
structure Assignment where
  target : Node
  value : Node

/-- A statement as it is meant. -/
inductive Command where
  | empty
  | block (body : List Command)
  | assign (assignment : Assignment)
  | call (callee : Handle) (args : Option Node)
  | branch (test : Node) (thenPart : Command)
  | branchElse (test : Node) (thenPart elsePart : Command)
  | whileLoop (test : Node) (body : Command)
  | forLoop (start : Option Assignment) (test : Option Node) (update : Option Assignment)
      (body : Command)
  | ret (value : Option Node)

/-! ## Trees -/

def Assignment.tree (a : Assignment) : Node := ⟨.assign a.target a.value, .void, ⟨0, 0⟩⟩

namespace Command

mutual

/-- The tree that a command stands for, if it stands for any. -/
def tree : Command → Option Node
  | .empty => none
  | .block body => Node.argumentList (trees body)
  | .assign a => some a.tree
  | .call callee args => some ⟨.call callee args, .void, ⟨0, 0⟩⟩
  | .branch test thenPart => some ⟨.branch test thenPart.tree none, .void, ⟨0, 0⟩⟩
  | .branchElse test thenPart elsePart =>
    some ⟨.branch test thenPart.tree elsePart.tree, .void, ⟨0, 0⟩⟩
  | .whileLoop test body => some ⟨.whileLoop test body.tree, .void, ⟨0, 0⟩⟩
  | .forLoop start test update body =>
    some ⟨.forLoop (start.map Assignment.tree) test (update.map Assignment.tree) body.tree, .void,
      ⟨0, 0⟩⟩
  | .ret value => some ⟨.ret value, (value.map (·.ty)).getD .void, ⟨0, 0⟩⟩

/-- The trees of several commands in their order, without those that have none. -/
def trees : List Command → List Node
  | [] => []
  | c :: rest => c.tree.toList ++ trees rest

end

end Command

/-! ## Words -/

/-- The word of a keyword. -/
def Keyword.word (word : Keyword) : Word := (.keyword word, word.spelling)

/-- The words of an expression. -/
def Node.words (t : Table) (s : Spelling) (n : Node) : List Word := (n.written t s).words s

def Assignment.words (t : Table) (s : Spelling) (a : Assignment) : List Word :=
  a.target.words t s ++ Punct.equal.word :: a.value.words t s

/-- The words of a condition in its parentheses. -/
def Node.conditionWords (t : Table) (s : Spelling) (test : Node) : List Word :=
  Punct.leftParen.word :: (test.words t s ++ [Punct.rightParen.word])

/-- The words of a part that may be missing. -/
def Word.optional {α : Type} (words : α → List Word) (part : Option α) : List Word :=
  (part.map words).getD []

namespace Command

mutual

/-- The words of a command, with the braces of its blocks and no others. -/
def words (t : Table) (s : Spelling) : Command → List Word
  | .empty => [Punct.semicolon.word]
  | .block body => Punct.leftBrace.word :: (wordsAll t s body ++ [Punct.rightBrace.word])
  | .assign a => a.words t s ++ [Punct.semicolon.word]
  | .call callee args =>
    Node.words t s ⟨.call callee args, .void, ⟨0, 0⟩⟩ ++ [Punct.semicolon.word]
  | .branch test thenPart =>
    Keyword.ifWord.word :: (test.conditionWords t s ++ thenPart.words t s)
  | .branchElse test thenPart elsePart =>
    Keyword.ifWord.word :: (test.conditionWords t s ++
      (thenPart.words t s ++ Keyword.elseWord.word :: elsePart.words t s))
  | .whileLoop test body => Keyword.whileWord.word :: (test.conditionWords t s ++ body.words t s)
  | .forLoop start test update body =>
    Keyword.forWord.word :: Punct.leftParen.word ::
      (Word.optional (Assignment.words t s) start ++ Punct.semicolon.word ::
        (Word.optional (Node.words t s) test ++ Punct.semicolon.word ::
          (Word.optional (Assignment.words t s) update ++ Punct.rightParen.word ::
            body.words t s)))
  | .ret value =>
    Keyword.returnWord.word :: (Word.optional (Node.words t s) value ++ [Punct.semicolon.word])

/-- The words of several commands. -/
def wordsAll (t : Table) (s : Spelling) : List Command → List Word
  | [] => []
  | c :: rest => c.words t s ++ wordsAll t s rest

end

/-- A command ends in an `if` without an `else`: an `else` behind it would be taken into it. -/
def isOpen : Command → Bool
  | .branch _ _ => true
  | .branchElse _ _ elsePart => elsePart.isOpen
  | .whileLoop _ body => body.isOpen
  | .forLoop _ _ _ body => body.isOpen
  | _ => false

end Command

/-! ## What can be written -/

/-- An expression obeys the typing rules, and its names and constants can be written. -/
structure Node.IsWritable (t : Table) (s : Spelling) (n : Node) : Prop where
  typed : n.IsTyped t
  named : n.Throughout (Node.IsNamed t)
  spelled : n.Throughout (Node.IsSpelled s)

theorem Node.IsWritable.of_leaf {t : Table} {s : Spelling} {n : Node} (typed : n.IsTyped t)
    (named : n.IsNamed t) (spelled : n.IsSpelled s) (leaf : n.children = []) : n.IsWritable t s :=
  ⟨typed, throughout_of_leaf named leaf, throughout_of_leaf spelled leaf⟩

theorem Node.IsWritable.binary {t : Table} {s : Spelling} {op : BinOp} {left right : Node} {ty : Ty}
    (left_writable : left.IsWritable t s) (right_writable : right.IsWritable t s)
    (applies : op.Applies left.ty right.ty ty) (span : Span) :
    Node.IsWritable t s ⟨.binary op left right, ty, span⟩ :=
  ⟨.binary span left_writable.typed right_writable.typed applies,
    throughout_of_children nofun rfl left_writable.named right_writable.named,
    throughout_of_children trivial rfl left_writable.spelled right_writable.spelled⟩

/-- What a value can be assigned to. -/
inductive Node.IsPlace : Node → Prop
  | var (h : Handle) (ty : Ty) (span : Span) : IsPlace ⟨.var h, ty, span⟩
  | element (h : Handle) (index : Node) (ty : Ty) (span : Span) :
      IsPlace ⟨.element h index, ty, span⟩

/-- An assignment gives a number to a place that holds numbers. -/
structure Assignment.IsWritable (t : Table) (s : Spelling) (a : Assignment) : Prop where
  place : a.target.IsPlace
  target : a.target.IsWritable t s
  target_number : a.target.ty.IsNumber
  value : a.value.IsWritable t s
  value_number : a.value.ty.IsNumber

/-- A condition is a truth value. -/
structure Node.IsCondition (t : Table) (s : Spelling) (test : Node) : Prop where
  writable : test.IsWritable t s
  truth : test.ty = .bool

/-- A command obeys the typing rules in a function with the given result, its names and constants
can be written, and no `else` stands behind an open command. -/
inductive Command.IsWritable (t : Table) (s : Spelling) (result : TypeSpec) : Command → Prop
  | empty : IsWritable t s result .empty
  | block {body : List Command} (each : ∀ c ∈ body, IsWritable t s result c) :
      IsWritable t s result (.block body)
  | assign {a : Assignment} (writable : a.IsWritable t s) : IsWritable t s result (.assign a)
  /-- A call that stands alone has no result. -/
  | call {callee : Handle} {args : Option Node}
      (writable : Node.IsWritable t s ⟨.call callee args, .void, ⟨0, 0⟩⟩) :
      IsWritable t s result (.call callee args)
  | branch {test : Node} {thenPart : Command} (condition : test.IsCondition t s)
      (then_writable : IsWritable t s result thenPart) :
      IsWritable t s result (.branch test thenPart)
  | branchElse {test : Node} {thenPart elsePart : Command} (condition : test.IsCondition t s)
      (then_writable : IsWritable t s result thenPart) (closed : thenPart.isOpen = false)
      (else_writable : IsWritable t s result elsePart) :
      IsWritable t s result (.branchElse test thenPart elsePart)
  | whileLoop {test : Node} {body : Command} (condition : test.IsCondition t s)
      (body_writable : IsWritable t s result body) : IsWritable t s result (.whileLoop test body)
  | forLoop {start : Option Assignment} {test : Option Node} {update : Option Assignment}
      {body : Command} (start_writable : ∀ a ∈ start, a.IsWritable t s)
      (condition : ∀ n ∈ test, n.IsCondition t s)
      (update_writable : ∀ a ∈ update, a.IsWritable t s)
      (body_writable : IsWritable t s result body) :
      IsWritable t s result (.forLoop start test update body)
  | bareReturn (no_result : result = .void) : IsWritable t s result (.ret none)
  | valueReturn {value : Node} (has_result : result ≠ .void) (writable : value.IsWritable t s)
      (number : value.ty.IsNumber) : IsWritable t s result (.ret (some value))

/-! ## Trees without places -/

namespace Node

variable {ty : Ty} {span : Span}

theorem unplaced_node? (n? : Option Node) : Relabel.unplaced.node? n? = n?.map unplaced :=
  Relabel.node?_eq_map _ n?

theorem unplaced_assign (target value : Node) : unplaced ⟨.assign target value, ty, span⟩ =
    ⟨.assign target.unplaced value.unplaced, ty, ⟨0, 0⟩⟩ := rfl

theorem unplaced_call (h : Handle) (args : Option Node) : unplaced ⟨.call h args, ty, span⟩ =
    ⟨.call h (args.map unplaced), ty, ⟨0, 0⟩⟩ := by
  rw [← unplaced_node?]
  rfl

theorem unplaced_branch (test : Node) (thenPart elsePart : Option Node) :
    unplaced ⟨.branch test thenPart elsePart, ty, span⟩ =
      ⟨.branch test.unplaced (thenPart.map unplaced) (elsePart.map unplaced), ty, ⟨0, 0⟩⟩ := by
  rw [← unplaced_node?, ← unplaced_node?]
  rfl

theorem unplaced_whileLoop (test : Node) (body : Option Node) :
    unplaced ⟨.whileLoop test body, ty, span⟩ =
      ⟨.whileLoop test.unplaced (body.map unplaced), ty, ⟨0, 0⟩⟩ := by
  rw [← unplaced_node?]
  rfl

theorem unplaced_forLoop (start test update body : Option Node) :
    unplaced ⟨.forLoop start test update body, ty, span⟩ =
      ⟨.forLoop (start.map unplaced) (test.map unplaced) (update.map unplaced)
        (body.map unplaced), ty, ⟨0, 0⟩⟩ := by
  rw [← unplaced_node?, ← unplaced_node?, ← unplaced_node?, ← unplaced_node?]
  rfl

theorem unplaced_ret (value : Option Node) : unplaced ⟨.ret value, ty, span⟩ =
    ⟨.ret (value.map unplaced), ty, ⟨0, 0⟩⟩ := by
  rw [← unplaced_node?]
  rfl

end Node

/-! ## What statements are checked to -/

section

variable {α β γ δ : Type} {up : α → γ} {up' : β → δ} {x : Checked α} {a : α} {b : β}

/-- What is checked is a given value, as far as it is looked at, without a report. -/
structure Checked.Makes (up : α → γ) (x : Checked α) (a : α) : Prop where
  reports : x.reports = []
  value : up x.value = up a

namespace Checked.Makes

theorem pure {a' : α} (same : up a' = up a) : Makes up (Pure.pure a') a := ⟨rfl, same⟩

theorem bind (h : x.Makes up a) {f : α → Checked β}
    (hf : ∀ a', up a' = up a → (f a').Makes up' b) : (x >>= f).Makes up' b := by
  obtain ⟨hreports, hvalue⟩ := hf x.value h.value
  constructor
  · rw [Checked.reports_bind, h.reports, hreports]
    rfl
  · exact hvalue

theorem some (h : x.Makes up a) : (Option.some <$> x).Makes (Option.map up) (Option.some a) := by
  constructor
  · rw [Checked.reports_map]
    exact h.reports
  · exact congrArg Option.some h.value

/-- A part that may be missing is there where it is meant to be. -/
theorem option {ε : Type} {tree : ε → β} {check : α → Checked β} {a? : Option α} {e? : Option ε}
    (h : Option.Rel (fun a e => (check a).Makes up' (tree e)) a? e?) :
    (Checked.option check a?).Makes (Option.map up') (e?.map tree) := by
  cases h with
  | none => exact pure rfl
  | some h => exact h.some

end Checked.Makes

end

variable {t : Table} {s : Spelling} {result : TypeSpec} {n m : Node} {n? m? : Option Node}

/-- A checked tree up to places, and a checked part that may be missing. -/
abbrev Checked.MakesTree (x : Checked Node) (n : Node) : Prop := x.Makes Node.unplaced n

abbrev Checked.MakesPart (x : Checked (Option Node)) (n? : Option Node) : Prop :=
  x.Makes (Option.map Node.unplaced) n?

theorem Node.IsWritable.makes (h : n.IsWritable t s) {e : Expr}
    (same : e.unplaced = (n.written t s).unplaced) : (e.check t).MakesTree n := by
  obtain ⟨hreports, hvalue⟩ := (h.typed.written h.named h.spelled).writes e same
  exact ⟨hreports, hvalue⟩

theorem Node.isError_of_unplaced_eq (h : m.unplaced = n.unplaced) : m.isError = n.isError := by
  have := congrArg Node.isError h
  rwa [Node.unplaced, Node.unplaced, Relabel.isError_node, Relabel.isError_node] at this

namespace Typing

variable {place : Span}

theorem makes_assign {target value : Node} (htarget : target.unplaced = n.unplaced)
    (hvalue : value.unplaced = m.unplaced) (target_typed : n.IsTyped t)
    (target_number : n.ty.IsNumber) (value_typed : m.IsTyped t) (value_number : m.ty.IsNumber) :
    (assign target value place).MakesTree ⟨.assign n m, .void, ⟨0, 0⟩⟩ := by
  have htargetError := Node.isError_of_unplaced_eq htarget
  have hvalueError := Node.isError_of_unplaced_eq hvalue
  rw [target_typed.isError_eq_false] at htargetError
  rw [value_typed.isError_eq_false] at hvalueError
  rw [← Expr.ty_of_unplaced_eq htarget, ← Ty.isArith_iff] at target_number
  rw [← Expr.ty_of_unplaced_eq hvalue, ← Ty.isArith_iff] at value_number
  have hassign : assign target value place = pure ⟨.assign target value, .void, place⟩ := by
    simp [assign, htargetError, hvalueError, target_number, value_number]
  rw [hassign]
  apply Checked.Makes.pure
  rw [Node.unplaced_assign, Node.unplaced_assign, htarget, hvalue]

theorem condition_eq_pure {test : Node} (same : test.unplaced = n.unplaced) (truth : n.ty = .bool) :
    condition test = pure () := by
  rw [← Expr.ty_of_unplaced_eq same] at truth
  simp [condition, truth, Checked.reportIf]

theorem makes_branch {test : Node} {thenPart elsePart : Option Node}
    (htest : test.unplaced = n.unplaced) (truth : n.ty = .bool)
    (hthen : thenPart.map Node.unplaced = n?.map Node.unplaced)
    (helse : elsePart.map Node.unplaced = m?.map Node.unplaced) :
    (branch test thenPart elsePart place).MakesTree ⟨.branch n n? m?, .void, ⟨0, 0⟩⟩ := by
  have hbranch : branch test thenPart elsePart place =
      pure ⟨.branch test thenPart elsePart, .void, place⟩ := by
    rw [branch, condition_eq_pure htest truth]
    rfl
  rw [hbranch]
  apply Checked.Makes.pure
  rw [Node.unplaced_branch, Node.unplaced_branch, htest, hthen, helse]

theorem makes_whileLoop {test : Node} {body : Option Node} (htest : test.unplaced = n.unplaced)
    (truth : n.ty = .bool) (hbody : body.map Node.unplaced = n?.map Node.unplaced) :
    (whileLoop test body place).MakesTree ⟨.whileLoop n n?, .void, ⟨0, 0⟩⟩ := by
  have hloop : whileLoop test body place = pure ⟨.whileLoop test body, .void, place⟩ := by
    rw [whileLoop, condition_eq_pure htest truth]
    rfl
  rw [hloop]
  apply Checked.Makes.pure
  rw [Node.unplaced_whileLoop, Node.unplaced_whileLoop, htest, hbody]

theorem makes_forLoop {start test update body start' test' update' body' : Option Node}
    (hstart : start.map Node.unplaced = start'.map Node.unplaced)
    (htest : test.map Node.unplaced = test'.map Node.unplaced) (truth : ∀ n ∈ test', n.ty = .bool)
    (hupdate : update.map Node.unplaced = update'.map Node.unplaced)
    (hbody : body.map Node.unplaced = body'.map Node.unplaced) :
    (forLoop start test update body place).MakesTree
      ⟨.forLoop start' test' update' body', .void, ⟨0, 0⟩⟩ := by
  have hloop : forLoop start test update body place =
      pure ⟨.forLoop start test update body, .void, place⟩ := by
    cases test with
    | none => rfl
    | some n =>
        cases test' with
        | none => cases htest
        | some n' =>
            have hcondition := condition_eq_pure (Option.some.inj htest) (truth n' rfl)
            rw [forLoop, hcondition]
            rfl
  rw [hloop]
  apply Checked.Makes.pure
  rw [Node.unplaced_forLoop, Node.unplaced_forLoop, hstart, htest, hupdate, hbody]

theorem makes_valueReturn {value : Node} (has_result : result ≠ .void)
    (hvalue : value.unplaced = n.unplaced) (number : n.ty.IsNumber) :
    (ret result (some value) place).MakesTree ⟨.ret (some n), n.ty, ⟨0, 0⟩⟩ := by
  have hty := Expr.ty_of_unplaced_eq hvalue
  rw [← hty, ← Ty.isArith_iff] at number
  have hret : ret result (some value) place = pure ⟨.ret (some value), value.ty, place⟩ := by
    simp [ret, has_result, number]
  rw [hret]
  apply Checked.Makes.pure
  rw [Node.unplaced_ret, Node.unplaced_ret, Option.map_some, Option.map_some, hvalue, hty]

/-- A call that stands alone is one of a function without a result. -/
theorem makes_callStatement {name : String} {h : Handle} {symbol : Symbol} {sig : Signature}
    {args args' : Option Node} (finds : t.lookupAny name = some h) (found : t.get? h = some symbol)
    (is_function : symbol.ty = .function) (signature : symbol.signature? = some sig)
    (no_result : sig.result = .void) (suit : Suit sig.formals (actuals args))
    (same : args.map Node.unplaced = args'.map Node.unplaced) (place : Span) :
    (callStatement t name args place).MakesTree ⟨.call h args', .void, ⟨0, 0⟩⟩ := by
  have hcall := callOf_of_suit found is_function signature suit name place true fun _ => no_result
  rw [callStatement, finds]
  dsimp only
  rw [hcall, no_result]
  apply Checked.Makes.pure
  rw [Node.unplaced_call, Node.unplaced_call, same]
  rfl

end Typing

/-- A call with its function and its arguments. -/
theorem Node.IsTyped.call_parts {h : Handle} {args : Option Node} {ty : Ty} {span : Span}
    (typed : Node.IsTyped t ⟨.call h args, ty, span⟩) :
    ∃ symbol sig, t.get? h = some symbol ∧ symbol.ty = .function ∧ symbol.signature? = some sig ∧
      ty = sig.result.ty ∧ Node.PassedTo t sig.formals args := by
  cases typed with
  | call span found is_function signature passed =>
      exact ⟨_, _, found, is_function, signature, rfl, passed⟩

theorem TypeSpec.eq_void_of_ty {spec : TypeSpec} (h : .void = spec.ty) : spec = .void := by
  cases spec with
  | void => rfl
  | int | char => cases h

theorem Assign.makes {target : Target} {value : Expr} {a : Assignment}
    (writable : a.IsWritable t s) (htarget : (target.check t).MakesTree a.target)
    (hvalue : (value.check t).MakesTree a.value) (span : Span) :
    ((Assign.mk target value span).check t).MakesTree a.tree := by
  rw [Assign.check]
  apply htarget.bind
  intro n hn
  apply hvalue.bind
  intro m hm
  exact Typing.makes_assign hn hm writable.target.typed writable.target_number
    writable.value.typed writable.value_number

namespace Stmt

variable {body : Stmt} {test : Expr}

/-- The arguments of a call are written, and the call is checked to its tree. -/
theorem makes_call {callee : Handle} {args : Option Node}
    (writable : Node.IsWritable t s ⟨.call callee args, .void, ⟨0, 0⟩⟩) {es : List Expr}
    (same : es.map Expr.unplaced = (Node.writtenItems t s args).map Expr.unplaced) (span : Span) :
    ((Stmt.call (t.nameOf callee) es span).check t result).MakesPart
      (some ⟨.call callee args, .void, ⟨0, 0⟩⟩) := by
  obtain ⟨symbol, sig, found, is_function, signature, hty, passed⟩ := writable.typed.call_parts
  have hfinds := writable.named.here callee rfl
  obtain ⟨-, hwrites⟩ := passed.written
    (fun n hn => writable.named.child (Option.mem_toList.2 hn))
    (fun n hn => writable.spelled.child (Option.mem_toList.2 hn))
  obtain ⟨hreports, hvalue, hsuit⟩ := hwrites es same
  rw [← Node.items_argumentList (Expr.checkAll t es).value] at hsuit
  have hcall := Typing.makes_callStatement hfinds found is_function signature
    (TypeSpec.eq_void_of_ty hty) hsuit hvalue span
  constructor
  · rw [Stmt.check, Checked.reports_bind, hreports]
    exact hcall.some.reports
  · exact hcall.some.value

theorem makes_branch {elsePart : Option Stmt} (htest : (test.check t).MakesTree n)
    (truth : n.ty = .bool) (hthen : (body.check t result).MakesPart n?)
    (helse : (Stmt.checkElse t result elsePart).MakesPart m?) (span : Span) :
    ((Stmt.branch test body elsePart span).check t result).MakesPart
      (some ⟨.branch n n? m?, .void, ⟨0, 0⟩⟩) := by
  rw [Stmt.check]
  apply htest.bind
  intro c hc
  apply hthen.bind
  intro yes hyes
  apply helse.bind
  intro no hno
  exact (Typing.makes_branch hc truth hyes hno).some

theorem makes_whileLoop (htest : (test.check t).MakesTree n) (truth : n.ty = .bool)
    (hbody : (body.check t result).MakesPart n?) (span : Span) :
    ((Stmt.whileLoop test body span).check t result).MakesPart
      (some ⟨.whileLoop n n?, .void, ⟨0, 0⟩⟩) := by
  rw [Stmt.check]
  apply htest.bind
  intro c hc
  apply hbody.bind
  intro b hb
  exact (Typing.makes_whileLoop hc truth hb).some

theorem makes_forLoop {start update : Option Assign} {test : Option Expr}
    {start' update' : Option Assignment} {test' : Option Node}
    (hstart : Option.Rel (fun a a' => (a.check t).MakesTree a'.tree) start start')
    (htest : Option.Rel (fun e n => (e.check t).MakesTree n) test test')
    (truth : ∀ n ∈ test', n.ty = .bool)
    (hupdate : Option.Rel (fun a a' => (a.check t).MakesTree a'.tree) update update')
    (hbody : (body.check t result).MakesPart n?) (span : Span) :
    ((Stmt.forLoop start test update body span).check t result).MakesPart
      (some ⟨.forLoop (start'.map Assignment.tree) test' (update'.map Assignment.tree) n?, .void,
        ⟨0, 0⟩⟩) := by
  have htest' := Checked.Makes.option htest
  rw [Option.map_id'] at htest'
  rw [Stmt.check]
  apply (Checked.Makes.option hstart).bind
  intro s hs
  apply htest'.bind
  intro c hc
  apply (Checked.Makes.option hupdate).bind
  intro u hu
  apply hbody.bind
  intro b hb
  exact (Typing.makes_forLoop hs hc truth hu hb).some

theorem makes_bareReturn (no_result : result = .void) (span : Span) :
    ((Stmt.ret none span).check t result).MakesPart (some ⟨.ret none, .void, ⟨0, 0⟩⟩) := by
  rw [no_result]
  exact .pure rfl

theorem makes_valueReturn {value : Expr} (has_result : result ≠ .void)
    (hvalue : (value.check t).MakesTree n) (number : n.ty.IsNumber) (span : Span) :
    ((Stmt.ret (some value) span).check t result).MakesPart
      (some ⟨.ret (some n), n.ty, ⟨0, 0⟩⟩) := by
  rw [Stmt.check]
  apply hvalue.some.bind
  intro v? hv
  obtain ⟨v, rfl, hsame⟩ := Option.map_eq_some_iff.1 hv
  exact (Typing.makes_valueReturn has_result hsame number).some

/-- Statements in a row make the chain of those trees that there are. -/
theorem makes_body {stmts : List Stmt} {commands : List Command}
    (h : List.Forall₂ (fun c stmt => (stmt.check t result).MakesPart c.tree) commands stmts) :
    (Stmt.checkBody t result stmts).MakesPart (Node.argumentList (Command.trees commands)) := by
  induction h with
  | nil => exact .pure rfl
  | @cons c stmt rest stmts hhead _ ih =>
      rw [Stmt.checkBody]
      apply hhead.bind
      intro head hhead'
      apply ih.bind
      intro tail htail
      apply Checked.Makes.pure
      have hlist : Typing.statementList c.tree (Node.argumentList (Command.trees rest)) =
          Node.argumentList (Command.trees (c :: rest)) := by
        rw [Command.trees]
        cases c.tree <;> rfl
      calc (Typing.statementList head tail).map Node.unplaced
          = Typing.statementList (head.map Node.unplaced) (tail.map Node.unplaced) :=
            (Typing.statementList_map head tail).symm
        _ = Typing.statementList (c.tree.map Node.unplaced)
            ((Node.argumentList (Command.trees rest)).map Node.unplaced) := by
            rw [hhead', htail]
        _ = (Typing.statementList c.tree (Node.argumentList (Command.trees rest))).map
            Node.unplaced := Typing.statementList_map _ _
        _ = (Node.argumentList (Command.trees (c :: rest))).map Node.unplaced := by
            rw [hlist]

end Stmt

end Cmm
