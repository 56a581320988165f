import Cmm.Proofs.Handover.Gives
import Cmm.Proofs.Stages

/-!
# The items of a declaration

* `Item.declare` — what an item does to the type word in force and the names that are declared; the
  items of variables do what their tokens do.
* `Item.IsReadFrom` — the items of a declaration by its tokens: variables, prototypes, or a function
  definition; `Grammar.declaration_gives`.
-/

set_option autoImplicit false

namespace Cmm

/-! ## Names -/

/-- What an item of a declaration does to the type word in force and the names that are declared. -/
def Item.declare (state : TypeSpec × List String) : Item → TypeSpec × List String
  | .spec word => (word, state.2)
  | .scalar name _ | .array name _ _ _ => Token.declareName state name
  | _ => state

/-- The name that a parameter declares; a parameter of type `void` declares none. -/
def Param.declare (state : TypeSpec × List String) (p : Param) : TypeSpec × List String :=
  Token.declareName (p.spec, state.2) p.name

/-- The item is the body of a function. -/
def Item.isBody : Item → Bool
  | .body _ _ => true
  | _ => false

/-- The item declares a variable, or names the type of variables. -/
abbrev Item.IsVariable (item : Item) : Prop := item.Moves .inside .inside

theorem Item.isBody_of_variable {item : Item} (h : item.IsVariable) : item.isBody = false := by
  cases h <;> rfl

/-- Items without the body of a function. -/
def Bodiless (items : List Item) : Prop := ∀ item ∈ items, item.isBody = false

namespace Bodiless

variable {items more : List Item}

theorem nil : Bodiless [] := fun _ h => nomatch h

theorem append (h : Bodiless items) (h' : Bodiless more) : Bodiless (items ++ more) :=
  List.forall_mem_append.2 ⟨h, h'⟩

theorem flatten {lists : List (List Item)} (h : ∀ items ∈ lists, Bodiless items) :
    Bodiless lists.flatten := by
  intro item hitem
  obtain ⟨items, hitems, hmem⟩ := List.mem_flatten.1 hitem
  exact h items hitems item hmem

theorem of_variables (h : ∀ item ∈ items, item.IsVariable) : Bodiless items :=
  fun item hitem => Item.isBody_of_variable (h item hitem)

end Bodiless

/-- The item stands in a list of prototypes, before its end. -/
def Item.isHeading : Item → Bool
  | .external | .spec _ | .header _ _ _ | .prototype => true
  | _ => false

/-- Items of prototypes before the end of their list. -/
def Headings (items : List Item) : Prop := ∀ item ∈ items, item.isHeading = true

namespace Headings

variable {items more : List Item}

theorem nil : Headings [] := fun _ h => nomatch h

theorem append (h : Headings items) (h' : Headings more) : Headings (items ++ more) :=
  List.forall_mem_append.2 ⟨h, h'⟩

theorem flatten {lists : List (List Item)} (h : ∀ items ∈ lists, Headings items) :
    Headings lists.flatten := by
  intro item hitem
  obtain ⟨items, hitems, hmem⟩ := List.mem_flatten.1 hitem
  exact h items hitems item hmem

end Headings

theorem Bodiless.of_headings {items : List Item} (h : Headings items) : Bodiless items := by
  intro item hitem
  have hheading := h item hitem
  cases item with
  | body => cases hheading
  | external | spec | scalar | array | header | prototype | endPrototypes | beginBody | loose => rfl

namespace Token

variable {t : Token} {state : TypeSpec × List String}

theorem declare_typeWord {spec : TypeSpec} (h : t.kind = .typeWord spec) :
    declare state t = (spec, state.2) := by
  unfold declare
  rw [h]

theorem declare_identifier (h : t.kind = .identifier) :
    declare state t = declareName state t.lexeme := by
  unfold declare
  rw [h]

theorem declare_punct {mark : Punct} (h : t.kind = .punct mark) : declare state t = state := by
  unfold declare
  rw [h]

theorem declare_intLiteral (h : t.kind = .intLiteral) : declare state t = state := by
  unfold declare
  rw [h]

/-- The first token declares no name, since no type word stands in front of it. -/
theorem declared_singleton (t : Token) : declared [t] = [] := by
  unfold declared
  rw [List.foldl_cons, List.foldl_nil, declare]
  split <;> rfl

/-- Names that are declared already stand in front of those that tokens declare. -/
theorem foldl_declare_append (tokens : List Token) (spec : TypeSpec) (xs ys : List String) :
    (tokens.foldl declare (spec, xs ++ ys)).2 = xs ++ (tokens.foldl declare (spec, ys)).2 := by
  induction tokens generalizing spec ys with
  | nil => rfl
  | cons t rest ih =>
      have hstep : declare (spec, xs ++ ys) t =
          ((declare (spec, ys) t).1, xs ++ (declare (spec, ys) t).2) := by
        unfold declare declareName
        split
        · rfl
        · dsimp only
          split <;> simp
        · rfl
      rw [List.foldl_cons, hstep, ih, List.foldl_cons]

end Token

namespace Grammar

open Parse Computability

theorem typeWord_gives : Gives typeWord fun tokens spec =>
    ∃ t : Token, tokens = [t] ∧ t.kind = .typeWord spec := by
  intro c spec c' hstop hr
  obtain ⟨k, c₁, hk, hr⟩ := reads_bind.1 hr
  obtain ⟨rfl, rfl⟩ := reads_kind.1 hk
  split at hr
  · rename_i spec' hspec
    obtain ⟨_, c₂, hadvance, hr⟩ := reads_bind.1 hr
    cases reads_advance.1 hadvance
    obtain ⟨rfl, rfl⟩ := reads_pure.1 hr
    obtain ⟨hrest, hend⟩ := Cursor.rest_eq hstop (by rw [hspec]; simp)
    exact ⟨[c₁.next], hrest, hend, c₁.next, rfl, hspec⟩
  · exact absurd hr reads_fail

/-- Phrases with commas between them do one after the other what each of them does. -/
theorem commaSeparated_gives {α : Type} {p : Parse α}
    {step : TypeSpec × List String → α → TypeSpec × List String}
    (hp : Gives p fun tokens a => ∀ state, tokens.foldl Token.declare state = step state a)
    (items : α → List Item) (fuel : Nat) :
    Gives (commaSeparated p items fuel) fun tokens as =>
      ∀ state, tokens.foldl Token.declare state = as.foldl step state := by
  induction fuel with
  | zero =>
      refine hp.bind fun tokens a hstep => .pure fun state => ?_
      rw [List.append_nil, hstep]
      rfl
  | succ fuel ih =>
      refine hp.bind fun tokens a hstep => .accept (by simp) (fun comma hcomma => ?_) ?_
      · refine ih.holding.bind fun more as hmore => .pure fun state => ?_
        rw [List.append_nil, List.foldl_append, hstep, List.foldl_cons,
          Token.declare_punct hcomma, hmore]
        rfl
      · refine .pure fun state => ?_
        rw [List.append_nil, hstep]
        rfl

theorem declarator_gives (name : String) (span : Span) : Gives (declarator name span)
    fun tokens item => ∀ state,
      tokens.foldl Token.declare (Token.declareName state name) = item.declare state := by
  unfold declarator
  refine .accept (by simp) (fun bracket hbracket => ?_) (.pure fun state => rfl)
  refine (Gives.require (by simp)).bind fun tokens size ⟨hsize, hkind⟩ => ?_
  refine Gives.expect.bind fun tokens' _ ⟨close, hclose, hmark⟩ => .spanFrom fun whole => .pure ?_
  subst hsize hclose
  intro state
  simp only [List.foldl_cons, List.foldl_nil, List.append_nil, List.singleton_append,
    Token.declare_punct hbracket, Token.declare_intLiteral hkind, Token.declare_punct hmark]
  rfl

/-- Tokens that end in a semicolon. -/
def EndInSemicolon (tokens : List Token) : Prop :=
  ∃ before t, tokens = before ++ [t] ∧ t.kind = .punct .semicolon

theorem EndInSemicolon.of_kinds {tokens : List Token} {l : Language Kind}
    (h : Token.kinds tokens ∈ l * Sentence.punct .semicolon) : EndInSemicolon tokens := by
  obtain ⟨u, -, hu⟩ := Ebnf.mem_mul_letter.1 h
  obtain ⟨before, end', rfl, -, hend⟩ := List.map_eq_append_iff.1 hu
  obtain ⟨t, rfl, ht⟩ := List.map_eq_singleton_iff.1 hend
  exact ⟨before, t, rfl, ht⟩

theorem EndInSemicolon.append_left {tokens : List Token} (h : EndInSemicolon tokens)
    (more : List Token) : EndInSemicolon (more ++ tokens) := by
  obtain ⟨before, t, rfl, ht⟩ := h
  exact ⟨more ++ before, t, (List.append_assoc ..).symm, ht⟩

/-- Variables are declared with the type word in front of them. -/
theorem declarators_gives (fuel : Nat) (name : String) (span : Span) :
    Gives (declarators fuel name span) fun tokens items => ∀ state,
      tokens.foldl Token.declare (Token.declareName state name) =
        items.foldl Item.declare state := by
  have hanother : Gives (Parse.name .object >>= fun r => declarator r.1 r.2) fun tokens item =>
      ∀ state, tokens.foldl Token.declare state = item.declare state := by
    refine Gives.name.bind fun tokens r ⟨t, htokens, hkind, hr⟩ => ?_
    subst htokens hr
    refine (declarator_gives t.lexeme t.span).imp fun more item hstep state => ?_
    rw [List.singleton_append, List.foldl_cons, Token.declare_identifier hkind, hstep]
  unfold declarators
  refine (declarator_gives name span).bind fun tokens first hstep => ?_
  refine Gives.bind (R := fun tokens others =>
    ∀ state, tokens.foldl Token.declare state = others.foldl Item.declare state) ?_ ?_
  · refine .holding (.accept (by simp) (fun comma hcomma => ?_) (.pure fun _ => rfl))
    refine (commaSeparated_gives hanother _ _).imp fun tokens others hall state => ?_
    rw [List.foldl_cons, Token.declare_punct hcomma, hall]
  · intro more others hall
    refine Gives.expect.holding.bind fun closing _ ⟨t, hclosing, hkind⟩ => .pure fun state => ?_
    subst hclosing
    rw [List.foldl_append, List.foldl_append, List.append_nil, hstep, hall, List.foldl_cons,
      Token.declare_punct hkind]
    rfl

/-! ## Headers -/

theorem param_gives : Gives param fun tokens p =>
    ∀ state, tokens.foldl Token.declare state = p.declare state := by
  unfold param
  refine typeWord_gives.bind fun tokens spec ⟨word, htokens, hword⟩ => ?_
  refine Gives.name.bind fun tokens' r ⟨name, htokens', hname, hr⟩ => ?_
  subst htokens htokens' hr
  refine .accept (by simp) (fun bracket hbracket => ?_) ?_
  · refine Gives.expect.bind fun tokens _ ⟨close, hclose, hmark⟩ => .pure fun state => ?_
    subst hclose
    simp only [List.foldl_cons, List.foldl_nil, List.append_nil, List.cons_append,
      List.nil_append, Token.declare_typeWord hword,
      Token.declare_identifier hname, Token.declare_punct hbracket, Token.declare_punct hmark]
    rfl
  · refine .pure fun state => ?_
    simp only [List.foldl_cons, List.foldl_nil, List.append_nil, List.singleton_append,
      Token.declare_typeWord hword, Token.declare_identifier hname]
    rfl

theorem parameters_gives (fuel : Nat) : Gives (parameters fuel) fun tokens params =>
    ∃ leftParen inner rightParen, tokens = leftParen :: (inner ++ [rightParen]) ∧
      leftParen.kind = .punct .leftParen ∧ rightParen.kind = .punct .rightParen ∧
      Token.declared inner = (params.foldl Param.declare (.void, [])).2 := by
  unfold parameters
  refine Gives.expect.bind fun opening _ ⟨leftParen, hopening, hleft⟩ => ?_
  refine .kind fun k => .kindBehind fun behind => ?_
  subst hopening
  have hclose : ∀ inner (params : List Param),
      Token.declared inner = (params.foldl Param.declare (.void, [])).2 →
      Gives (do expect .rightParen .parameters; return params) fun more params =>
        ∃ leftParen' inner' rightParen, [leftParen] ++ (inner ++ more) =
            leftParen' :: (inner' ++ [rightParen]) ∧
          leftParen'.kind = .punct .leftParen ∧ rightParen.kind = .punct .rightParen ∧
          Token.declared inner' = (params.foldl Param.declare (.void, [])).2 := by
    intro inner params hdeclared
    refine Gives.expect.bind fun closing _ ⟨rightParen, hclosing, hright⟩ => .pure ?_
    subst hclosing
    exact ⟨leftParen, inner, rightParen, by simp, hleft, hright, hdeclared⟩
  dsimp only
  split
  · refine Gives.advance.bind fun inner _ hinner => ?_
    refine Gives.bind (R := fun tokens params => tokens = [] ∧ params = []) (.pure ⟨rfl, rfl⟩) ?_
    rintro _ _ ⟨rfl, rfl⟩
    refine hclose inner [] ?_
    rcases hinner with rfl | ⟨t, rfl⟩
    · rfl
    · exact Token.declared_singleton t
  · split
    · refine Gives.bind (R := fun tokens params => tokens = [] ∧ params = []) (.pure ⟨rfl, rfl⟩) ?_
      rintro _ _ ⟨rfl, rfl⟩
      exact hclose [] [] rfl
    · refine (commaSeparated_gives param_gives _ _).bind fun inner params hall => ?_
      exact hclose inner params (congrArg Prod.snd (hall (.void, [])))

/-! ## Bodies -/

/-- Tokens and items declare the same names, whatever type words stand in front of them. -/
def DeclareSame (tokens : List Token) (items : List Item) : Prop :=
  ∀ state state', state.2 = state'.2 →
    (tokens.foldl Token.declare state).2 = (items.foldl Item.declare state').2

theorem locals_gives (bound fuel : Nat) : Gives (locals bound fuel) DeclareSame := by
  induction fuel with
  | zero => exact .pure fun _ _ h => h
  | succ fuel ih =>
      refine .kind fun k => ?_
      split
      · refine typeWord_gives.bind fun tokens spec ⟨word, htokens, hword⟩ => ?_
        refine Gives.name.bind fun tokens' r ⟨name, htokens', hname, hr⟩ => ?_
        subst htokens htokens' hr
        refine (declarators_gives bound name.lexeme name.span).holding.bind
          fun tokens declared hstep => ?_
        refine ih.holding.bind fun more items hmore => .pure fun state state' hsame => ?_
        simp only [List.append_nil, List.cons_append, List.nil_append, List.foldl_cons,
          List.foldl_append, Token.declare_typeWord hword, Token.declare_identifier hname, hstep,
          hsame]
        exact hmore _ _ rfl
      · exact .pure fun _ _ h => h

/-- The items of a body by its tokens, with the braces. -/
inductive IsBodyFrom : List Token → List Item → Prop
  | mk {leftBrace rightBrace : Token} {locals statements : List Token} {declared : List Item}
      (left : leftBrace.kind = .punct .leftBrace)
      (locals_mem : Token.kinds locals ∈ (Sentence.words .base * Sentence.variableList)∗)
      (statements_mem : Token.kinds statements ∈ (Sentence.words .statement)∗)
      (right : rightBrace.kind = .punct .rightBrace)
      (all : ∀ item ∈ declared, item.IsVariable)
      (names : DeclareSame locals declared)
      (body : List Stmt) (closing : Span) :
      IsBodyFrom (leftBrace :: (locals ++ (statements ++ [rightBrace])))
        (declared ++ [.body body closing])

theorem functionBody_gives (fuel : Nat) : Gives (functionBody fuel) IsBodyFrom := by
  unfold functionBody
  refine Gives.expect.bind fun opening _ ⟨leftBrace, hopening, hleft⟩ => ?_
  refine (((Gives.of_spells (spells_locals fuel fuel)).and (locals_gives fuel fuel)).yields
    (locals_moves fuel fuel)).bind
      fun locals declared ⟨⟨hlocals, hnames⟩, hvariables⟩ => .holding ?_
  refine (Gives.of_spells (spells_statements (spells_statement fuel) fuel)).bind
    fun statements body hstatements => .next fun closing => ?_
  refine Gives.expect.holding.bind fun tokens _ ⟨rightBrace, htokens, hright⟩ => .pure ?_
  subst hopening htokens
  have := IsBodyFrom.mk hleft hlocals hstatements hright hvariables hnames body closing.span
  simpa using this

/-- The items of prototypes hold no body, and the last ends their list. -/
def ArePrototypes (items : List Item) : Prop :=
  ∃ others, items = others ++ [.endPrototypes] ∧ Bodiless others

theorem ArePrototypes.append_left {items more : List Item} (h : ArePrototypes items)
    (hmore : Bodiless more) : ArePrototypes (more ++ items) := by
  obtain ⟨others, rfl, hothers⟩ := h
  exact ⟨more ++ others, (List.append_assoc ..).symm, hmore.append hothers⟩

theorem headings_prototype (fuel : Nat) : Yields (prototype fuel) Headings := by
  unfold prototype
  refine .after fun name => .after fun params => .pure ?_
  simp [Headings, Item.isHeading]

theorem headings_prototypes (fuel : Nat) : Yields (prototypes fuel) fun items =>
    ∃ others, items = others ++ [.endPrototypes] ∧ Headings others := by
  have hclose : ∀ others, Headings others → Yields (do
      holding others (expect .semicolon .prototype)
      return others ++ [.endPrototypes]) fun items =>
        ∃ others, items = others ++ [.endPrototypes] ∧ Headings others := fun others hothers =>
    .after fun _ => .pure ⟨others, rfl, hothers⟩
  unfold prototypes
  refine .after fun more => ?_
  dsimp only
  split
  · refine Yields.bind ?_ hclose
    exact (Yields.commaSeparated (headings_prototype fuel) _ fuel).map fun _ => .flatten
  · exact Yields.bind (.pure .nil) hclose

theorem prototype_yields (fuel : Nat) : Yields (prototype fuel) Bodiless :=
  (headings_prototype fuel).imp fun _ => .of_headings

theorem prototypes_yields (fuel : Nat) : Yields (prototypes fuel) ArePrototypes :=
  (headings_prototypes fuel).imp fun _ ⟨others, hitems, hothers⟩ =>
    ⟨others, hitems, .of_headings hothers⟩

/-! ## Declarations -/

/-- The items of a declaration by its tokens: those of variables, those of prototypes, or those of a
function definition. The first two end in a semicolon. -/
inductive IsReadFrom : List Token → List Item → Prop
  | declarators {tokens : List Token} {items : List Item} (ends : EndInSemicolon tokens)
      (all : ∀ item ∈ items, item.IsVariable) : IsReadFrom tokens items
  | prototypes {tokens : List Token} {items : List Item} (ends : EndInSemicolon tokens)
      (are : ArePrototypes items) : IsReadFrom tokens items
  | definition (f : FunctionTokens) {spec : TypeSpec} {params : List Param} {declared : List Item}
      (named : Token.declared f.params = (params.foldl Param.declare (.void, [])).2)
      (all : ∀ item ∈ declared, item.IsVariable)
      (names : DeclareSame f.locals declared)
      (body : List Stmt) (closing : Span) :
      IsReadFrom f.tokens (.spec spec :: .header f.name.lexeme f.name.span params :: .beginBody ::
        (declared ++ [.body body closing]))

theorem afterHeader_gives (fuel : Nat) (isExtern : Bool) (header : Item) :
    Gives (afterHeader fuel isExtern header) fun tokens items =>
      (isExtern = false ∧ ∃ rest, items = header :: .beginBody :: rest ∧ IsBodyFrom tokens rest) ∨
      (EndInSemicolon tokens ∧ ∃ rest, items = header :: .prototype :: rest ∧
        ArePrototypes rest) := by
  unfold afterHeader
  refine .kind fun k => ?_
  split
  · rename_i hbody
    refine (functionBody_gives fuel).holding.bind fun tokens rest hrest => .pure ?_
    rw [List.append_nil]
    exact .inl ⟨by simpa using (Bool.and_eq_true_iff.1 hbody).1, rest, rfl, hrest⟩
  · refine ((Gives.of_spells (spells_prototypes fuel)).yields (prototypes_yields fuel)).holding.bind
      fun tokens rest ⟨hkinds, hrest⟩ => .pure ?_
    rw [List.append_nil]
    exact .inr ⟨.of_kinds hkinds, rest, rfl, hrest⟩

theorem mem_bases {t : Token} {spec : TypeSpec} (h : t.kind = .typeWord spec) :
    t.kind ∈ Sentence.bases := by
  rw [h]
  cases spec <;> simp [Sentence.bases]

theorem inner_mem_parameters {leftParen rightParen : Token} {inner : List Token}
    (h : Token.kinds (leftParen :: (inner ++ [rightParen])) ∈
      Sentence.punct .leftParen * (Sentence.words .parameters * Sentence.punct .rightParen)) :
    Token.kinds inner ∈ Sentence.words .parameters := by
  obtain ⟨u, hu, heq⟩ := Ebnf.mem_letter_mul.1 h
  obtain ⟨v, hv, rfl⟩ := Ebnf.mem_mul_letter.1 hu
  have hinner : Token.kinds (inner ++ [rightParen]) = v ++ [.punct .rightParen] :=
    (List.cons.inj heq).2
  rw [Token.kinds_append] at hinner
  rwa [(List.append_inj' hinner rfl).1]

/-- **The items of a declaration are those of its tokens.** -/
theorem declaration_gives (fuel : Nat) : Gives (declaration fuel) IsReadFrom := by
  unfold declaration
  refine .acceptOptional (by simp) fun external isExtern hexternal => ?_
  refine typeWord_gives.bind fun _ spec ⟨base, hbase, hspec⟩ => ?_
  refine Gives.name.bind fun _ r ⟨name, hname, hkind, hr⟩ => ?_
  subst hbase hname hr
  have hopening : Bodiless ((if isExtern then [Item.external] else []) ++ [.spec spec]) := by
    cases isExtern <;> simp [Bodiless, Item.isBody]
  refine .holding (.kind fun k => ?_)
  split
  · refine ((Gives.of_spells (spells_parameters fuel)).and (parameters_gives fuel)).bind
      fun _ params ⟨hparams, leftParen, inner, rightParen, hheader, hleft, hright, hnamed⟩ => ?_
    subst hheader
    refine (afterHeader_gives fuel isExtern _).bind fun tokens items hitems => .pure ?_
    rw [List.append_nil]
    rcases hitems with ⟨hfalse, rest, rfl, hbody⟩ | ⟨hends, rest, rfl, hrest⟩
    · subst hfalse
      rw [hexternal rfl]
      obtain ⟨hleft', hlocals, hstatements, hright', hall, hnames, body, closing⟩ := hbody
      rename_i leftBrace rightBrace locals statements declared
      exact .definition ⟨base, name, leftParen, inner, rightParen, leftBrace, locals, statements,
        rightBrace, mem_bases hspec, hkind, hleft, inner_mem_parameters hparams, hright, hleft',
        hlocals, hstatements, hright'⟩ hnamed hall hnames body closing
    · refine .prototypes ?_ ?_
      · exact (((hends.append_left _).append_left _).append_left _).append_left _
      · refine ArePrototypes.append_left ?_ hopening
        exact @ArePrototypes.append_left _ [_, _] hrest (by simp [Bodiless, Item.isBody])
  · split
    · exact .fail
    · rename_i hfalse
      have free : Stage.inside ≠ .headed := by simp
      refine ((Gives.of_spells (spells_declarators fuel name.lexeme name.span)).yields
        (declarators_moves free fuel name.lexeme name.span)).bind
          fun tokens declared ⟨hkinds, hall⟩ => .pure (.declarators ?_ ?_)
      · rw [← mul_assoc] at hkinds
        have hends := EndInSemicolon.of_kinds hkinds
        rw [List.append_nil]
        exact ((hends.append_left _).append_left _).append_left _
      · rw [Bool.not_eq_true] at hfalse
        subst hfalse
        exact List.forall_mem_cons.2 ⟨.spec spec free, hall⟩

end Grammar

end Cmm
