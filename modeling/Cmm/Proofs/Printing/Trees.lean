import Cmm.Proofs.Printing.Expressions
import Cmm.Proofs.Typing.Expressions

/-!
# Trees print and parse

A tree that obeys the typing rules is written as an expression, with parentheses where a part would
bind too loosely for its place and nowhere else. What is read back is checked to the same tree.

* `Node.written` — a tree as an expression; handles are written as the names of their symbols.
* `Node.IsNamed`, `Node.IsSpelled` — a name finds its symbol again, and a constant has a lexeme that
  means it. `Expr.Mirrors.named` says that all trees of expressions are named.
* `Expr.Writes` — wherever it stands, an expression is checked to a tree, without a report.
* `Node.IsTyped.written` — a tree is written so that it is read back, and checked to itself.
* `Grammar.expression_written` — printing and parsing a tree.
-/

set_option autoImplicit false

namespace Cmm

/-! ## Writing trees -/

/-- The name of the symbol of a handle. -/
def Table.nameOf (t : Table) (h : Handle) : String := ((t.get? h).map (·.name)).getD ""

namespace Expr

/-- The level of an expression: that of its operator, or above all if it has none. -/
def level : Expr → Nat
  | .binary op _ _ => op.tier.rank
  | .unary _ _ _ => 6
  | _ => 7

/-- An expression at a place of a level: in parentheses if it binds more loosely. -/
def grouped (e : Expr) (level : Nat) : Expr := if e.level < level then .paren e ⟨0, 0⟩ else e

end Expr

mutual

/-- A tree as an expression. What is no expression is written as a name that nothing has. -/
def Node.written (t : Table) (s : Spelling) : Node → Expr
  | ⟨form, _, _⟩ => form.written t s

def Form.written (t : Table) (s : Spelling) : Form Node → Expr
  | .int value => .int (s.int value) ⟨0, 0⟩
  | .char value => .char value ⟨0, 0⟩
  | .string text => .string text ⟨0, 0⟩
  | .var h => .var (t.nameOf h) ⟨0, 0⟩
  | .element h index => .element (t.nameOf h) (index.written t s) ⟨0, 0⟩
  | .call h args => .call (t.nameOf h) (Node.writtenItems t s args) ⟨0, 0⟩
  | .unary op operand => .unary op ((operand.written t s).grouped 6) ⟨0, 0⟩
  | .binary op left right =>
    .binary op ((left.written t s).grouped op.tier.rank)
      ((right.written t s).grouped (op.tier.rank + 1))
  | _ => .var "" ⟨0, 0⟩

/-- The items of a chain of cells. -/
def Node.writtenItems (t : Table) (s : Spelling) : Option Node → List Expr
  | some ⟨.cell head tail, _, _⟩ => head.written t s :: Node.writtenItems t s tail
  | _ => []

end

/-- The name of a tree finds its symbol again: no other one hides it. -/
def Node.IsNamed (t : Table) (n : Node) : Prop :=
  ∀ h ∈ n.handle?, t.lookupAny (t.nameOf h) = some h

/-- The constant of a tree has a lexeme that means it. A negative number has none. -/
def Node.IsSpelled (s : Spelling) (n : Node) : Prop :=
  match n.form with
  | .int value => Numeral.constant? (s.int value) = some value
  | .char value => Escape.decodeByte (Literal.body (s.char value)) = some value
  | .string text => Escape.decodeText (Literal.body (s.string text)) = some text.toList
  | _ => True

/-- A node that refers to what a name stands for is named. -/
theorem Table.Denotes.isNamed {t : Table} {name : String} {h : Handle} {s : Symbol}
    (found : t.Denotes name h s) (ht : t.Sound) {n : Node} (refers : n.handle? = some h) :
    n.IsNamed t := by
  intro h' hh'
  obtain rfl : h = h' := Option.some.inj (refers.symm.trans hh')
  have hname : t.nameOf h = name := by
    rw [Table.nameOf, found.get, Option.map_some, Option.getD_some, found.named]
  rw [hname]
  exact (Table.lookupAny_eq_some_iff ht).2 ⟨s, found⟩

mutual

/-- The tree of an expression is named, as its names are those of the expression. -/
theorem Expr.Mirrors.named {t : Table} (ht : t.Sound) : ∀ {e : Expr} {n : Node}, e.Mirrors t n →
    n.Throughout (Node.IsNamed t)
  | _, _, .int _ | _, _, .char | _, _, .string => Node.throughout_of_leaf nofun rfl
  | _, _, .var found => Node.throughout_of_leaf (found.isNamed ht rfl) rfl
  | _, _, .element found same => by
    have hindex := same.named ht
    exact Node.throughout_of_child (found.isNamed ht rfl) rfl hindex
  | _, _, .call found same => by
    have hargs := same.named ht
    have hlist := Node.throughout_argumentList (fun _ _ _ => nofun) hargs
    exact Node.throughout_of_part (found.isNamed ht rfl) rfl hlist
  | _, _, .unary same => by
    have hoperand := same.named ht
    exact Node.throughout_of_child nofun rfl hoperand
  | _, _, .binary left_same right_same => by
    have hleft := left_same.named ht
    have hright := right_same.named ht
    exact Node.throughout_of_children nofun rfl hleft hright
  | _, _, .paren same => by
    have hinner := Node.throughout_iff.1 (same.named ht)
    exact Node.throughout_iff.2 hinner

theorem Expr.MirrorsAll.named {t : Table} (ht : t.Sound) : ∀ {es : List Expr} {ns : List Node},
    Expr.MirrorsAll t es ns → ∀ n ∈ ns, n.Throughout (Node.IsNamed t)
  | _, _, .nil => nofun
  | _, _, .cons head tail => by
    have hhead := head.named ht
    have htail := tail.named ht
    intro n hn
    rcases List.mem_cons.1 hn with heq | hn
    · rw [heq]
      exact hhead
    · exact htail n hn

end

/-! ## Checking what is written -/

namespace Expr

variable {t : Table} {s : Spelling} {x : Expr} {n : Node} {name : String} {h : Handle}
  {symbol : Symbol}

/-- Wherever it stands, an expression is checked to a tree, without a report. -/
def Writes (t : Table) (x : Expr) (n : Node) : Prop :=
  ∀ e : Expr, e.unplaced = x.unplaced →
    (e.check t).reports = [] ∧ (e.check t).value.unplaced = n.unplaced

/-- Wherever they stand, expressions are checked to the arguments of a call. -/
def WritesAll (t : Table) (xs : List Expr) (formals : List Formal) (args : Option Node) : Prop :=
  ∀ es : List Expr, es.map unplaced = xs.map unplaced → (checkAll t es).reports = [] ∧
    (Node.argumentList (checkAll t es).value).map Node.unplaced = args.map Node.unplaced ∧
    Typing.Suit formals (checkAll t es).value

theorem ty_of_unplaced_eq {m n : Node} (h : m.unplaced = n.unplaced) : m.ty = n.ty := by
  have := congrArg Node.ty h
  rwa [Node.unplaced, Node.unplaced, Relabel.ty_node, Relabel.ty_node] at this

theorem writes_int {lexeme : String} {value : Int} (span span' : Span)
    (fits : Numeral.constant? lexeme = some value) :
    (int lexeme span).Writes t ⟨.int value, .int, span'⟩ := by
  intro e he
  cases e with
  | int lexeme' span =>
      obtain rfl : lexeme' = lexeme := by simpa using he
      rw [check, fits]
      exact ⟨rfl, rfl⟩
  | _ => simp at he

theorem writes_char (value : UInt8) (span span' : Span) :
    (char value span).Writes t ⟨.char value, .char, span'⟩ := by
  intro e he
  cases e with
  | char value' span =>
      obtain rfl : value' = value := by simpa using he
      exact ⟨rfl, rfl⟩
  | _ => simp at he

theorem writes_string (text : String) (span span' : Span) :
    (string text span).Writes t ⟨.string text, .array .char, span'⟩ := by
  intro e he
  cases e with
  | string text' span =>
      obtain rfl : text' = text := by simpa using he
      exact ⟨rfl, rfl⟩
  | _ => simp at he

theorem writes_var (span span' : Span) (finds : t.lookupAny name = some h)
    (found : t.get? h = some symbol) :
    (var name span).Writes t ⟨.var h, symbol.ty, span'⟩ := by
  intro e he
  cases e with
  | var name' span =>
      obtain rfl : name' = name := by simpa using he
      simp only [check, Typing.var, finds, found]
      exact ⟨rfl, rfl⟩
  | _ => simp at he

theorem writes_element {index : Expr} {i : Node} {element : Scalar} (span span' : Span)
    (finds : t.lookupAny name = some h) (found : t.get? h = some symbol)
    (is_array : symbol.ty = .array element) (inside : index.Writes t i)
    (number : i.ty.IsNumber) :
    (Expr.element name index span).Writes t ⟨.element h i, element.ty, span'⟩ := by
  intro e he
  cases e with
  | element name' index' span =>
      obtain ⟨rfl, hindex⟩ : name' = name ∧ index'.unplaced = index.unplaced := by simpa using he
      obtain ⟨hreports, hvalue⟩ := inside index' hindex
      have hgood : Typing.badIndex (index'.check t).value = false := by
        rw [Typing.badIndex_iff, ty_of_unplaced_eq hvalue]
        exact .inl number
      have helement : Typing.element t name' (index'.check t).value span =
          pure ⟨.element h (index'.check t).value, element.ty, span⟩ := by
        simp only [Typing.element, finds, found, Option.bind_some, is_array, Ty.element?, hgood]
        rfl
      rw [check, Checked.reports_bind, Checked.value_bind, hreports, helement]
      refine ⟨rfl, ?_⟩
      show Node.mk (.element h (index'.check t).value.unplaced) element.ty ⟨0, 0⟩ = _
      rw [hvalue]
      rfl
  | _ => simp at he

theorem writes_call {xs : List Expr} {args : Option Node} {sig : Signature} (span span' : Span)
    (finds : t.lookupAny name = some h) (found : t.get? h = some symbol)
    (is_function : symbol.ty = .function) (signature : symbol.signature? = some sig)
    (inside : WritesAll t xs sig.formals args) :
    (call name xs span).Writes t ⟨.call h args, sig.result.ty, span'⟩ := by
  intro e he
  cases e with
  | call name' es span =>
      obtain ⟨rfl, hes⟩ : name' = name ∧ es.map unplaced = xs.map unplaced := by simpa using he
      obtain ⟨hreports, hvalue, hsuit⟩ := inside es hes
      rw [← Node.items_argumentList (checkAll t es).value] at hsuit
      have hcall : Typing.call t name' (Node.argumentList (checkAll t es).value) span =
          pure ⟨.call h (Node.argumentList (checkAll t es).value), sig.result.ty, span⟩ := by
        rw [Typing.call, finds]
        exact Typing.callOf_of_suit found is_function signature hsuit name' span false nofun
      rw [check, Checked.reports_bind, Checked.value_bind, hreports, hcall]
      refine ⟨rfl, ?_⟩
      show Node.mk (.call h (Relabel.unplaced.node? _)) sig.result.ty ⟨0, 0⟩ =
        Node.mk (.call h (Relabel.unplaced.node? args)) sig.result.ty ⟨0, 0⟩
      rw [Relabel.node?_eq_map, Relabel.node?_eq_map]
      exact congrArg (fun args' => Node.mk (.call h args') sig.result.ty ⟨0, 0⟩) hvalue
  | _ => simp at he

theorem writes_unary {op : UnOp} {result : Ty} (mark span : Span) (inside : x.Writes t n)
    (applies : op.Applies n.ty result) :
    (unary op x mark).Writes t ⟨.unary op n, result, span⟩ := by
  intro e he
  cases e with
  | unary op' operand mark =>
      obtain ⟨rfl, hoperand⟩ : op' = op ∧ operand.unplaced = x.unplaced := by simpa using he
      obtain ⟨hreports, hvalue⟩ := inside operand hoperand
      rw [← ty_of_unplaced_eq hvalue] at applies
      rw [check, Checked.reports_bind, Checked.value_bind, hreports]
      rcases Typing.unary_spec op' (operand.check t).value
        (mark.hull (operand.check t).value.span) with ⟨ty, applies', heq⟩ | ⟨herr, -⟩ | ⟨hno, -⟩
      · rw [heq, applies'.unique applies]
        refine ⟨rfl, ?_⟩
        show Node.mk (.unary op' (operand.check t).value.unplaced) result ⟨0, 0⟩ = _
        rw [hvalue]
        rfl
      · exact absurd herr applies.ne_error.1
      · exact absurd applies (hno _)
  | _ => simp at he

theorem writes_binary {op : BinOp} {y : Expr} {m : Node} {result : Ty} (span : Span)
    (left : x.Writes t n) (right : y.Writes t m) (applies : op.Applies n.ty m.ty result) :
    (binary op x y).Writes t ⟨.binary op n m, result, span⟩ := by
  intro e he
  cases e with
  | binary op' l r =>
      obtain ⟨rfl, hl, hr⟩ : op' = op ∧ l.unplaced = x.unplaced ∧ r.unplaced = y.unplaced := by
        simpa using he
      obtain ⟨hlreports, hlvalue⟩ := left l hl
      obtain ⟨hrreports, hrvalue⟩ := right r hr
      rw [← ty_of_unplaced_eq hlvalue, ← ty_of_unplaced_eq hrvalue] at applies
      rw [check, Checked.reports_bind, Checked.value_bind, Checked.reports_bind,
        Checked.value_bind, hlreports, hrreports]
      rcases Typing.binary_spec op' (l.check t).value (r.check t).value with
        ⟨ty, applies', heq⟩ | ⟨herr, -⟩ | ⟨hno, -⟩
      · rw [heq, applies'.unique applies]
        refine ⟨rfl, ?_⟩
        show Node.mk (.binary op' (l.check t).value.unplaced (r.check t).value.unplaced) result
          ⟨0, 0⟩ = _
        rw [hlvalue, hrvalue]
        rfl
      · rcases herr with herr | herr
        · exact absurd herr applies.ne_error.1
        · exact absurd herr applies.ne_error.2.1
      · exact absurd applies (hno _)
  | _ => simp at he

/-- Parentheses leave no node. -/
theorem Writes.grouped (inside : x.Writes t n) (level : Nat) : (x.grouped level).Writes t n := by
  unfold Expr.grouped
  split
  · intro e he
    cases e with
    | paren inner span =>
        have hinner : inner.unplaced = x.unplaced := by simpa using he
        obtain ⟨hreports, hvalue⟩ := inside inner hinner
        rw [check, Checked.reports_bind, Checked.value_bind, hreports]
        refine ⟨rfl, ?_⟩
        rw [← hvalue]
        generalize (inner.check t).value = value
        obtain ⟨form, ty, place⟩ := value
        rfl
    | _ => simp at he
  · exact inside

theorem writesAll_nil : WritesAll t [] [] none := by
  intro es hes
  rw [List.map_nil, List.map_eq_nil_iff] at hes
  subst hes
  exact ⟨rfl, rfl, .nil⟩

theorem WritesAll.cons {xs : List Expr} {formal : Formal} {formals : List Formal}
    {rest : Option Node} (tail : WritesAll t xs formals rest) (head : x.Writes t n)
    (passes : formal.ty.Passes n.ty) (span : Span) :
    WritesAll t (x :: xs) (formal :: formals) (some ⟨.cell n rest, .void, span⟩) := by
  intro es hes
  cases es with
  | nil => cases hes
  | cons e es =>
      rw [List.map_cons, List.map_cons, List.cons.injEq] at hes
      obtain ⟨hreports, hvalue⟩ := head e hes.1
      obtain ⟨hreports', hvalues, hsuit⟩ := tail es hes.2
      rw [← ty_of_unplaced_eq hvalue] at passes
      rw [checkAll, Checked.reports_bind, Checked.reports_bind, Checked.value_bind,
        Checked.value_bind, hreports, hreports']
      refine ⟨rfl, ?_, .cons (.inr passes) hsuit⟩
      show some (Node.mk (.cell (e.check t).value.unplaced (Relabel.unplaced.node? _)) .void
        ⟨0, 0⟩) = some (Node.mk (.cell n.unplaced (Relabel.unplaced.node? rest)) .void ⟨0, 0⟩)
      rw [Relabel.node?_eq_map, Relabel.node?_eq_map, hvalue]
      exact congrArg (fun tail => some (Node.mk (.cell n.unplaced tail) .void ⟨0, 0⟩)) hvalues

/-- What stands at the levels up to its own stands at any place, in parentheses if need be. -/
theorem Stands.grouped (h : ∀ level ≤ x.level, x.Stands s level) (level : Nat) :
    (x.grouped level).Stands s level := by
  unfold Expr.grouped
  split
  · exact .paren _ (h 0 (Nat.zero_le _))
  · rename_i hfits
    exact h level (Nat.le_of_not_lt hfits)

/-- Parentheses are put only where an expression cannot stand without them. -/
theorem Stands.grouped_eq {level : Nat} (h : x.Stands s level)
    (hlevel : level ≤ 6) : x.grouped level = x := by
  have hfits : level ≤ x.level := by
    cases h with
    | unary _ _ fits _ => exact fits
    | binary fits _ _ => exact fits
    | _ => exact Nat.le_succ_of_le hlevel
  exact if_neg (Nat.not_lt.2 hfits)

end Expr

namespace Node

variable {t : Table} {s : Spelling}

/-- What is written stands at the levels up to its own, and is checked to what it was written
from. -/
structure WrittenAs (t : Table) (s : Spelling) (x : Expr) (n : Node) : Prop where
  stands : ∀ level ≤ x.level, x.Stands s level
  writes : x.Writes t n

mutual

/-- **A typed tree is written as an expression that is read back and checked to it.** -/
theorem IsTyped.written : ∀ {n : Node}, n.IsTyped t → n.Throughout (IsNamed t) →
    n.Throughout (IsSpelled s) → WrittenAs t s (n.written t s) n
  | _, .int value span, _, hspelled => by
    have hfits : Numeral.constant? (s.int value) = some value := hspelled.here
    exact ⟨fun _ _ => .int _ _, Expr.writes_int _ _ hfits⟩
  | _, .char value span, _, hspelled => by
    have hdecodes : Escape.decodeByte (Literal.body (s.char value)) = some value := hspelled.here
    refine ⟨fun _ _ => .char _ ?_, Expr.writes_char _ _ _⟩
    rw [Grammar.charValue, hdecodes]
    rfl
  | _, .string text span, _, hspelled => by
    have hdecodes : Escape.decodeText (Literal.body (s.string text)) = some text.toList :=
      hspelled.here
    refine ⟨fun _ _ => .string _ ?_, Expr.writes_string _ _ _⟩
    rw [Grammar.stringText, hdecodes]
    exact String.ofList_toList
  | _, .var span found, hnamed, _ =>
    ⟨fun _ _ => .var _ _, Expr.writes_var _ _ (hnamed.here _ rfl) found⟩
  | _, .element span found is_array typed number, hnamed, hspelled => by
    have hindex := typed.written (hnamed.child List.mem_cons_self)
      (hspelled.child List.mem_cons_self)
    refine ⟨fun _ _ => .element _ _ (hindex.stands 0 (Nat.zero_le _)), ?_⟩
    exact Expr.writes_element _ _ (hnamed.here _ rfl) found is_array hindex.writes number
  | _, .call span found is_function signature passed, hnamed, hspelled => by
    obtain ⟨hstands, hwrites⟩ := passed.written
      (fun n hn => hnamed.child (Option.mem_toList.2 hn))
      (fun n hn => hspelled.child (Option.mem_toList.2 hn))
    refine ⟨fun _ _ => .call _ _ hstands, ?_⟩
    exact Expr.writes_call _ _ (hnamed.here _ rfl) found is_function signature hwrites
  | _, .unary span typed applies, hnamed, hspelled => by
    have hoperand := typed.written (hnamed.child List.mem_cons_self)
      (hspelled.child List.mem_cons_self)
    constructor
    · intro level hlevel
      exact .unary _ _ hlevel (Expr.Stands.grouped hoperand.stands 6)
    · exact Expr.writes_unary _ _ (hoperand.writes.grouped 6) applies
  | _, .binary span left_typed right_typed applies, hnamed, hspelled => by
    have hleft := left_typed.written (hnamed.child List.mem_cons_self)
      (hspelled.child List.mem_cons_self)
    have hright := right_typed.written (hnamed.child (.tail _ List.mem_cons_self))
      (hspelled.child (.tail _ List.mem_cons_self))
    constructor
    · intro level hlevel
      apply Expr.Stands.binary hlevel
      · exact Expr.Stands.grouped hleft.stands _
      · exact Expr.Stands.grouped hright.stands _
    · exact Expr.writes_binary _ (hleft.writes.grouped _) (hright.writes.grouped _) applies

theorem PassedTo.written : ∀ {formals : List Formal} {args : Option Node},
    PassedTo t formals args → (∀ n ∈ args, n.Throughout (IsNamed t)) →
      (∀ n ∈ args, n.Throughout (IsSpelled s)) →
        (∀ x ∈ writtenItems t s args, x.Stands s 0) ∧
          Expr.WritesAll t (writtenItems t s args) formals args
  | _, _, .nil, _, _ => ⟨nofun, Expr.writesAll_nil⟩
  | _, _, .cons span typed passes tail, hnamed, hspelled => by
    have hnames := hnamed _ rfl
    have hspells := hspelled _ rfl
    have harg := typed.written (hnames.child List.mem_cons_self)
      (hspells.child List.mem_cons_self)
    obtain ⟨hstands, hwrites⟩ := tail.written
      (fun n hn => hnames.child (.tail _ (Option.mem_toList.2 hn)))
      (fun n hn => hspells.child (.tail _ (Option.mem_toList.2 hn)))
    constructor
    · intro x hx
      rcases List.mem_cons.1 hx with heq | hmem
      · rw [heq]
        exact harg.stands 0 (Nat.zero_le _)
      · exact hstands x hmem
    · exact hwrites.cons harg.writes passes span

end

end Node

/-! ## Printing and parsing -/

/-- What goes on with an expression that stands in front of it: arguments, a subscript or a binary
operator. -/
def Kind.continuesExpression : Kind → Bool
  | .punct mark => mark == .leftParen || mark == .leftBracket || mark.binOp?.isSome
  | _ => false

theorem Sentence.Ends.of_not_continues {k : Kind} (h : k.continuesExpression = false)
    (tiers : List Tier) : Ends tiers k := by
  refine ⟨?_, ?_, ?_⟩
  · rintro rfl
    cases h
  · rintro rfl
    cases h
  · rintro mark op rfl hop
    simp [Kind.continuesExpression, hop] at h

/-- **Trees print and parse.** A tree that obeys the typing rules under some table, and whose names
and constants can be written, is written out with parentheses only where the levels of its operators
ask for them. In front of anything that does not go on with it, these tokens are read, all of them
and no other; nothing is reported, and what was read is checked to the tree, up to places. -/
theorem Grammar.expression_written {t : Table} {s : Spelling} {n : Node} (typed : n.IsTyped t)
    (named : n.Throughout (Node.IsNamed t)) (spelled : n.Throughout (Node.IsSpelled s)) {c : Cursor}
    {tokens rest : List Token} (printed : tokens.map Token.word = (n.written t s).words s)
    (left : c.rest = tokens ++ rest) (ended : c.stop.kind = .endOfFile)
    (next : (rest.headD c.stop).kind.continuesExpression = false) {fuel : Nat}
    (enough : tokens.length ≤ fuel) :
    ∃ e last, Grammar.expression fuel c = .ok (e, ⟨last, rest, c.stop⟩) ∧
      (e.check t).reports = [] ∧ (e.check t).value.unplaced = n.unplaced := by
  have hwritten := typed.written named spelled
  have hlength : ((n.written t s).words s).length ≤ fuel := by
    rw [← printed, List.length_map]
    exact enough
  have hends : Sentence.Ends Tier.all (Kind.first (rest.map (·.kind))) := by
    apply Sentence.Ends.of_not_continues
    cases rest with
    | nil => rfl
    | cons t rest => exact next
  have hreads := (hwritten.stands 0 (Nat.zero_le _)).gets_words hlength hends
  obtain ⟨e, last, hread, hsame⟩ := hreads c.last tokens rest c.stop ended printed rfl
  obtain ⟨hreports, hvalue⟩ := hwritten.writes e hsame
  rw [← left] at hread
  exact ⟨e, last, hread, hreports, hvalue⟩

/-- `(x - (1 - x)) * -a[x]` in front of a semicolon, behind `int x, a[3];`. -/
theorem Grammar.expression_written_sample :
    let t := (Env.empty.after [.spec .int, .scalar "x" ⟨4, 1⟩, .array "a" "3" ⟨9, 1⟩ ⟨7, 4⟩]).table
    let s : Spelling := ⟨toString, fun _ => "", fun _ => ""⟩
    let x : Node := ⟨.var ⟨.global, 0, 1⟩, .int, ⟨0, 0⟩⟩
    let inner : Node := ⟨.binary .sub ⟨.int 1, .int, ⟨0, 0⟩⟩ x, .int, ⟨0, 0⟩⟩
    let left : Node := ⟨.binary .sub x inner, .int, ⟨0, 0⟩⟩
    let right : Node := ⟨.unary .neg ⟨.element ⟨.global, 1, 1⟩ x, .int, ⟨0, 0⟩⟩, .int, ⟨0, 0⟩⟩
    let n : Node := ⟨.binary .mul left right, .int, ⟨0, 0⟩⟩
    let tokens : List Token := [⟨.punct .leftParen, "(", ⟨0, 1⟩⟩, ⟨.identifier, "x", ⟨1, 1⟩⟩,
      ⟨.punct .minus, "-", ⟨3, 1⟩⟩, ⟨.punct .leftParen, "(", ⟨5, 1⟩⟩, ⟨.intLiteral, "1", ⟨6, 1⟩⟩,
      ⟨.punct .minus, "-", ⟨8, 1⟩⟩, ⟨.identifier, "x", ⟨10, 1⟩⟩,
      ⟨.punct .rightParen, ")", ⟨11, 1⟩⟩, ⟨.punct .rightParen, ")", ⟨12, 1⟩⟩,
      ⟨.punct .star, "*", ⟨14, 1⟩⟩, ⟨.punct .minus, "-", ⟨16, 1⟩⟩, ⟨.identifier, "a", ⟨17, 1⟩⟩,
      ⟨.punct .leftBracket, "[", ⟨18, 1⟩⟩, ⟨.identifier, "x", ⟨19, 1⟩⟩,
      ⟨.punct .rightBracket, "]", ⟨20, 1⟩⟩]
    let rest : List Token := [⟨.punct .semicolon, ";", ⟨21, 1⟩⟩]
    tokens.map Token.word = (n.written t s).words s ∧
      ∃ e last,
        expression 15 ⟨⟨0, 0⟩, tokens ++ rest, .endAt 22⟩ = .ok (e, ⟨last, rest, .endAt 22⟩) ∧
          (e.check t).reports = [] ∧ (e.check t).value.unplaced = n.unplaced := by
  intro t s x inner left right n tokens rest
  have hx : t.get? ⟨.global, 0, 1⟩ = some ⟨"x", .global, .int, none, false, none, ⟨4, 1⟩⟩ := by
    decide +kernel
  have ha : t.get? ⟨.global, 1, 1⟩ =
      some ⟨"a", .global, .array .int, some 3, false, none, ⟨7, 4⟩⟩ := by
    decide +kernel
  have hnumber : Ty.IsNumber .int := .inl rfl
  have typed : n.IsTyped t := by
    have hname : x.IsTyped t := .var _ hx
    have hinner : inner.IsTyped t :=
      .binary _ (.int 1 _) hname (.arithmetic (by decide) hnumber hnumber)
    have hleft : left.IsTyped t :=
      .binary _ hname hinner (.arithmetic (by decide) hnumber hnumber)
    have hright : right.IsTyped t := .unary _ (.element _ ha rfl hname hnumber) (.neg hnumber)
    exact .binary _ hleft hright (.arithmetic (by decide) hnumber hnumber)
  have named : n.Throughout (Node.IsNamed t) := by
    have hx' : x.IsNamed t := by
      rintro h ⟨⟩
      decide +kernel
    have ha' : (⟨.element ⟨.global, 1, 1⟩ x, .int, ⟨0, 0⟩⟩ : Node).IsNamed t := by
      rintro h ⟨⟩
      decide +kernel
    have hname : x.Throughout (Node.IsNamed t) := Node.throughout_of_leaf hx' rfl
    have hinner : inner.Throughout (Node.IsNamed t) :=
      Node.throughout_of_children nofun rfl (Node.throughout_of_leaf nofun rfl) hname
    have hleft : left.Throughout (Node.IsNamed t) :=
      Node.throughout_of_children nofun rfl hname hinner
    have hright : right.Throughout (Node.IsNamed t) :=
      Node.throughout_of_child nofun rfl (Node.throughout_of_child ha' rfl hname)
    exact Node.throughout_of_children nofun rfl hleft hright
  have spelled : n.Throughout (Node.IsSpelled s) := by
    have hone : Numeral.constant? "1" = some 1 := by
      decide +kernel
    have hname : x.Throughout (Node.IsSpelled s) := Node.throughout_of_leaf trivial rfl
    have hinner : inner.Throughout (Node.IsSpelled s) :=
      Node.throughout_of_children trivial rfl (Node.throughout_of_leaf hone rfl) hname
    have hleft : left.Throughout (Node.IsSpelled s) :=
      Node.throughout_of_children trivial rfl hname hinner
    have hright : right.Throughout (Node.IsSpelled s) :=
      Node.throughout_of_child trivial rfl (Node.throughout_of_child trivial rfl hname)
    exact Node.throughout_of_children trivial rfl hleft hright
  have printed : tokens.map Token.word = (n.written t s).words s := by
    decide +kernel
  exact ⟨printed, expression_written typed named spelled printed rfl rfl rfl (by decide)⟩

end Cmm
