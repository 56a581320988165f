import Cmm.Proofs.Declarations.Runs
import Cmm.Proofs.Handover.Outlines

/-!
# How a declaration list is read

* `Token.CommaJoined` — phrases with commas between them. `Parse.reads_commaSeparated` — they are
  read one by one.
* `Item.IsObjectOf`, `Prototype.IsHeaderOf` — the item of a variable, and the prototype of a header,
  by the tokens. Every phrase of the grammar has one.
* `Grammar.reads_declaration_prototypes`, `Grammar.reads_declaration_objects`,
  `Grammar.reads_localDeclaration` — a declaration of such phrases is read to its opening and their
  items, whatever follows it.
-/

set_option autoImplicit false

namespace Cmm

open Parse

/-! ## Phrases between commas -/

namespace Token

/-- Some phrases with commas between them. -/
inductive CommaJoined : List (List Token) → List Token → Prop
  | one (phrase : List Token) : CommaJoined [phrase] phrase
  | more {phrases : List (List Token)} {comma : Token} {tokens : List Token}
      (phrase : List Token) (comma_kind : comma.kind = .punct .comma)
      (others : CommaJoined phrases tokens) :
      CommaJoined (phrase :: phrases) (phrase ++ comma :: tokens)

theorem CommaJoined.length {phrases : List (List Token)} {tokens : List Token}
    (h : CommaJoined phrases tokens) : phrases.length ≤ tokens.length + 1 := by
  induction h with
  | one phrase => simp
  | more phrase _ _ ih =>
      simp only [List.length_cons, List.length_append]
      omega

/-- The token stands behind a phrase of a list. -/
def Separates (t : Token) : Prop := t.kind = .punct .comma ∨ t.kind = .punct .semicolon

end Token

open Token (CommaJoined)

namespace Parse

variable {α : Type} {p : Parse α} {phrases : List (List Token)} {tokens : List Token}
  {values : List α} {semicolon : Token}

/-- A parser reads a phrase of a list as a value. -/
def ReadsPhrase (p : Parse α) (phrase : List Token) (a : α) : Prop :=
  ∀ (last : Span) (t : Token) (more : List Token) (stop : Token), t.Separates →
    ∃ behind, Reads p ⟨last, phrase ++ t :: more, stop⟩ a ⟨behind, t :: more, stop⟩

/-- Phrases between commas are read one by one, up to a semicolon. -/
theorem reads_commaSeparated (joined : CommaJoined phrases tokens)
    (each : List.Forall₂ (ReadsPhrase p) phrases values) (items : α → List Item) {fuel : Nat}
    (hfuel : phrases.length ≤ fuel + 1) (semicolon_kind : semicolon.kind = .punct .semicolon)
    (last : Span) (more : List Token) (stop : Token) :
    ∃ behind, Reads (commaSeparated p items fuel) ⟨last, tokens ++ semicolon :: more, stop⟩ values
      ⟨behind, semicolon :: more, stop⟩ := by
  induction joined generalizing values fuel last with
  | one phrase =>
      cases each with
      | cons head tail =>
          cases tail
          obtain ⟨behind, hread⟩ := head last semicolon more stop (.inr semicolon_kind)
          refine ⟨behind, ?_⟩
          cases fuel with
          | zero => exact .bind hread (.pure _)
          | succ fuel =>
              have hno : semicolon.kind ≠ .punct .comma := by simp [semicolon_kind]
              exact .bind hread (.refuse hno (.pure _))
  | @more phrases comma tokens phrase comma_kind others ih =>
      cases each with
      | cons head tail =>
          have hpos : 0 < phrases.length := by cases others <;> exact Nat.succ_pos _
          rw [List.length_cons] at hfuel
          obtain ⟨fuel, rfl⟩ : ∃ k, fuel = k + 1 := ⟨fuel - 1, by omega⟩
          obtain ⟨between, hread⟩ := head last comma (tokens ++ semicolon :: more) stop
            (.inl comma_kind)
          obtain ⟨behind, hothers⟩ := ih tail (by omega : phrases.length ≤ fuel + 1) comma.span
          refine ⟨behind, ?_⟩
          rw [List.append_assoc, List.cons_append]
          refine .bind hread (.accept comma_kind ?_)
          exact .bind (reads_holding.2 hothers) (.pure _)

end Parse

/-! ## Variables -/

/-- The tokens of a variable or of an array, by the item they are read as. -/
inductive Item.IsObjectOf : List Token → Item → Prop
  | scalar {name : Token} (name_kind : name.kind = .identifier) :
      IsObjectOf [name] (.scalar name.lexeme name.span)
  | array {name leftBracket size rightBracket : Token} (name_kind : name.kind = .identifier)
      (left_kind : leftBracket.kind = .punct .leftBracket) (size_kind : size.kind = .intLiteral)
      (right_kind : rightBracket.kind = .punct .rightBracket) :
      IsObjectOf [name, leftBracket, size, rightBracket]
        (.array name.lexeme size.lexeme size.span (name.span.hull rightBracket.span))

namespace Grammar

theorem exists_isObjectOf {phrase : List Token}
    (h : Token.kinds phrase ∈ Sentence.words .variable) : ∃ item, Item.IsObjectOf phrase item := by
  rw [Sentence.words_variable] at h
  obtain ⟨w, hw, heq⟩ := Ebnf.mem_letter_mul.1 h
  obtain ⟨name, rest, rfl, hname, hrest⟩ := List.map_eq_cons_iff.1 heq
  rcases hw with hw | rfl
  · obtain ⟨u, hu, rfl⟩ := Ebnf.mem_letter_mul.1 hw
    obtain ⟨v, hv, rfl⟩ := Ebnf.mem_letter_mul.1 hu
    rw [Ebnf.mem_letter.1 hv] at hrest
    obtain ⟨leftBracket, rest, rfl, hleft, hrest⟩ := List.map_eq_cons_iff.1 hrest
    obtain ⟨size, rest, rfl, hsize, hrest⟩ := List.map_eq_cons_iff.1 hrest
    obtain ⟨rightBracket, rest, rfl, hright, hrest⟩ := List.map_eq_cons_iff.1 hrest
    cases List.map_eq_nil_iff.1 hrest
    exact ⟨_, .array hname hleft hsize hright⟩
  · cases List.map_eq_nil_iff.1 hrest
    exact ⟨_, .scalar hname⟩

end Grammar

theorem Item.IsObjectOf.isObject {phrase : List Token} {item : Item}
    (h : IsObjectOf phrase item) : item.isObject = true := by
  cases h <;> rfl

theorem Item.isObject_of_forall₂ {phrases : List (List Token)} {items : List Item}
    (h : List.Forall₂ IsObjectOf phrases items) : ∀ item ∈ items, item.isObject = true := by
  induction h with
  | nil => simp
  | cons first _ ih => exact List.forall_mem_cons.2 ⟨first.isObject, ih⟩

namespace Grammar

variable {phrase : List Token} {item : Item}

/-- The name of an object is read first, and a declarator reads what is behind it. -/
theorem reads_object (object : Item.IsObjectOf phrase item) : ∃ name rest, phrase = name :: rest ∧
    name.kind = .identifier ∧ ∀ (t : Token) (more : List Token) (stop : Token), t.Separates →
      (⟨name.span, rest ++ t :: more, stop⟩ : Cursor).next.kind ≠ .punct .leftParen ∧
      ∃ behind, Reads (declarator name.lexeme name.span) ⟨name.span, rest ++ t :: more, stop⟩ item
        ⟨behind, t :: more, stop⟩ := by
  cases object with
  | @scalar name name_kind =>
      refine ⟨name, [], rfl, name_kind, fun t more stop separates => ?_⟩
      have hkind : t.kind ≠ .punct .leftBracket ∧ t.kind ≠ .punct .leftParen := by
        rcases separates with h | h <;> simp [h]
      exact ⟨hkind.2, name.span, .refuse hkind.1 (.pure _)⟩
  | @array name leftBracket size rightBracket name_kind left_kind size_kind right_kind =>
      refine ⟨name, [leftBracket, size, rightBracket], rfl, name_kind, fun t more stop _ => ?_⟩
      have hkind : leftBracket.kind ≠ .punct .leftParen := by simp [left_kind]
      refine ⟨hkind, rightBracket.span, ?_⟩
      refine .accept left_kind (.bind (reads_require.2 ⟨size_kind, rfl, rfl⟩) ?_)
      exact .bind (.expect right_kind) (.bind (reads_spanFrom.2 ⟨rfl, rfl⟩) (.pure _))

theorem readsPhrase_object (object : Item.IsObjectOf phrase item) (role : NameRole) :
    ReadsPhrase (do let (name, span) ← Parse.name role; declarator name span) phrase item := by
  intro last t more stop ht
  obtain ⟨name, rest, rfl, name_kind, hread⟩ := reads_object object
  obtain ⟨-, behind, hread⟩ := hread t more stop ht
  exact ⟨behind, .name name_kind hread⟩

variable {phrases : List (List Token)} {tokens : List Token} {items : List Item}
  {semicolon : Token}

/-- The objects of a declaration are read one by one behind the name of the first. -/
theorem reads_declarators (joined : CommaJoined phrases tokens)
    (objects : List.Forall₂ Item.IsObjectOf phrases items)
    (semicolon_kind : semicolon.kind = .punct .semicolon) :
    ∃ name rest, tokens = name :: rest ∧ name.kind = .identifier ∧
      ∀ (more : List Token) (stop : Token) (bound : Nat), tokens.length ≤ bound →
        (⟨name.span, rest ++ semicolon :: more, stop⟩ : Cursor).next.kind ≠ .punct .leftParen ∧
        Reads (declarators bound name.lexeme name.span)
          ⟨name.span, rest ++ semicolon :: more, stop⟩ items ⟨semicolon.span, more, stop⟩ := by
  have hclose (items : List Item) (last : Span) (more : List Token) (stop : Token) :
      Reads (do holding items (expect .semicolon .declaration); return items)
        ⟨last, semicolon :: more, stop⟩ items ⟨semicolon.span, more, stop⟩ :=
    .bind (reads_holding.2 (.expect semicolon_kind)) (.pure _)
  cases joined with
  | one phrase =>
      cases objects with
      | cons object others =>
          cases others
          obtain ⟨name, rest, rfl, name_kind, hread⟩ := reads_object object
          refine ⟨name, rest, rfl, name_kind, fun more stop bound hbound => ?_⟩
          obtain ⟨hkind, behind, hread⟩ := hread semicolon more stop (.inr semicolon_kind)
          refine ⟨hkind, ?_⟩
          refine .bind hread (.bind (reads_holding.2 ?_) (hclose _ behind more stop))
          have hno : semicolon.kind ≠ .punct .comma := by simp [semicolon_kind]
          exact .refuse hno (.pure _)
  | @more phrases comma others_tokens phrase comma_kind joined =>
      cases objects with
      | cons object others =>
          obtain ⟨name, rest, rfl, name_kind, hread⟩ := reads_object object
          refine ⟨name, rest ++ comma :: others_tokens, rfl, name_kind,
            fun more stop bound hbound => ?_⟩
          obtain ⟨hkind, between, hread⟩ := hread comma (others_tokens ++ semicolon :: more) stop
            (.inl comma_kind)
          have hphrases := joined.length
          simp only [List.length_append, List.length_cons] at hbound
          obtain ⟨behind, hothers⟩ := reads_commaSeparated joined
            (others.imp fun _ _ h => readsPhrase_object h .object) (fun item => [item])
            (by omega : _ ≤ bound + 1) semicolon_kind comma.span more stop
          rw [List.append_assoc, List.cons_append]
          refine ⟨hkind, ?_⟩
          refine .bind hread (.bind (reads_holding.2 ?_) (hclose _ behind more stop))
          exact .accept comma_kind hothers

end Grammar

/-! ## Prototypes -/

/-- The tokens of a function header, by the prototype they are read as: whatever follows the
header, its parameters are read alike. -/
def Prototype.IsHeaderOf (phrase : List Token) (p : Prototype) : Prop :=
  ∃ name rest behind, phrase = name :: rest ∧ name.kind = .identifier ∧ p.name = name.lexeme ∧
    p.span = name.span ∧ ∀ {more : List Token} {stop : Token} {bound : Nat},
      phrase.length ≤ bound → Reads (Grammar.parameters bound)
        ⟨name.span, rest ++ more, stop⟩ p.params ⟨behind, more, stop⟩

namespace Grammar

theorem exists_isHeaderOf {phrase : List Token} (h : Token.kinds phrase ∈ Sentence.header) :
    ∃ p, Prototype.IsHeaderOf phrase p := by
  obtain ⟨w, hw, heq⟩ := Ebnf.mem_letter_mul.1 h
  obtain ⟨name, rest, rfl, hname, hrest⟩ := List.map_eq_cons_iff.1 heq
  obtain ⟨params, behind, hread⟩ := reads_parameters_alone (hrest ▸ hw) name.span
  refine ⟨⟨name.lexeme, name.span, params⟩, name, rest, behind, rfl, hname, rfl, rfl, ?_⟩
  intro more stop bound hbound
  exact hread (Nat.le_of_succ_le hbound)

variable {phrases : List (List Token)} {tokens phrase : List Token} {p : Prototype}
  {ps : List Prototype} {semicolon : Token} {bound : Nat}

theorem readsPhrase_prototype (h : Prototype.IsHeaderOf phrase p) (hbound : phrase.length ≤ bound) :
    ReadsPhrase (prototype bound) phrase p.items := by
  intro last t more stop _
  obtain ⟨name, rest, behind, rfl, name_kind, hname, hspan, hparams⟩ := h
  rw [Prototype.items, hname, hspan]
  exact ⟨behind, .name name_kind (.bind (hparams hbound) (.pure _))⟩

theorem readsPhrases_prototype (headers : List.Forall₂ Prototype.IsHeaderOf phrases ps)
    (short : ∀ phrase ∈ phrases, phrase.length ≤ bound) :
    List.Forall₂ (ReadsPhrase (prototype bound)) phrases (ps.map Prototype.items) := by
  induction headers with
  | nil => exact .nil
  | cons head _ ih =>
      obtain ⟨hfirst, hothers⟩ := List.forall_mem_cons.1 short
      exact .cons (readsPhrase_prototype head hfirst) (ih hothers)

/-- A phrase of a list is no longer than the list. -/
theorem length_le_of_joined (joined : CommaJoined phrases tokens) :
    ∀ phrase ∈ phrases, phrase.length ≤ tokens.length := by
  induction joined with
  | one phrase => simp
  | more phrase _ _ ih =>
      rw [List.forall_mem_cons, List.length_append, List.length_cons]
      refine ⟨by omega, fun other hother => ?_⟩
      have := ih other hother
      omega

/-- Behind the header of a prototype, the others are read up to the semicolon. -/
theorem reads_afterHeader {isExtern : Bool} {header : Item} {t : Token} {last : Span}
    {more : List Token} {stop : Token} {items : List Item} {c' : Cursor} (separates : t.Separates)
    (hread : Reads (prototypes bound) ⟨last, t :: more, stop⟩ items c') :
    Reads (afterHeader bound isExtern header) ⟨last, t :: more, stop⟩
      (header :: .prototype :: items) c' := by
  have hno : (!isExtern && t.kind == .punct .leftBrace) = false := by
    rcases separates with h | h <;> simp [h]
  refine .kind rfl ?_
  show Reads (if (!isExtern && t.kind == .punct .leftBrace) = true then _ else _) _ _ _
  rw [if_neg (by rw [hno]; simp)]
  exact .bind (reads_holding.2 hread) (.pure _)

/-- The semicolon behind the last prototype. -/
theorem reads_prototypes_end (semicolon_kind : semicolon.kind = .punct .semicolon)
    (last : Span) (more : List Token) (stop : Token) : Reads (prototypes bound)
      ⟨last, semicolon :: more, stop⟩ [.endPrototypes] ⟨semicolon.span, more, stop⟩ := by
  have hno : semicolon.kind ≠ .punct .comma := by simp [semicolon_kind]
  refine .refuse hno (.bind (.pure []) ?_)
  exact .bind (reads_holding.2 (.expect semicolon_kind)) (.pure _)

/-- The prototypes behind the first one, with the comma in front of them. -/
theorem reads_prototypes_others {comma : Token} (comma_kind : comma.kind = .punct .comma)
    (joined : CommaJoined phrases tokens)
    (headers : List.Forall₂ Prototype.IsHeaderOf phrases ps)
    (semicolon_kind : semicolon.kind = .punct .semicolon) (hbound : tokens.length ≤ bound)
    (last : Span) (more : List Token) (stop : Token) : Reads (prototypes bound)
      ⟨last, comma :: (tokens ++ semicolon :: more), stop⟩
      (ps.flatMap Prototype.items ++ [.endPrototypes]) ⟨semicolon.span, more, stop⟩ := by
  have hphrases := joined.length
  have hshort : ∀ phrase ∈ phrases, phrase.length ≤ bound :=
    fun phrase h => (length_le_of_joined joined phrase h).trans hbound
  obtain ⟨behind, hothers⟩ := reads_commaSeparated joined (readsPhrases_prototype headers hshort)
    (fun items => items) (by omega : _ ≤ bound + 1) semicolon_kind comma.span more stop
  refine .accept comma_kind (.bind (reads_map.2 ⟨_, hothers, rfl⟩) ?_)
  exact .bind (reads_holding.2 (.expect semicolon_kind)) (.pure _)

end Grammar

/-! ## Declarations -/

/-- The kinds of the words in front of the names of a declaration. -/
def Prototype.openingKinds (isExtern : Bool) (spec : TypeSpec) : List Kind :=
  (if isExtern then [.keyword .external] else []) ++ [.typeWord spec]

namespace Grammar

variable {phrases : List (List Token)} {tokens before : List Token} {ps : List Prototype}
  {items : List Item} {semicolon : Token} {bound : Nat}

/-- The words in front of the names of a declaration are read first. -/
theorem reads_opening {β : Type} {isExtern : Bool} {spec : TypeSpec}
    (opening : Token.kinds before = Prototype.openingKinds isExtern spec)
    {f : Bool → TypeSpec → Parse β} {rest : List Token} {stop : Token} {b : β} {c' : Cursor}
    (hread : ∀ last, Reads (f isExtern spec) ⟨last, rest, stop⟩ b c') (last : Span) :
    Reads (do
      let isExtern ← accept (.keyword .external)
      let spec ← typeWord
      f isExtern spec) ⟨last, before ++ rest, stop⟩ b c' := by
  cases isExtern with
  | false =>
      obtain ⟨base, others, rfl, hbase, hothers⟩ := List.map_eq_cons_iff.1 opening
      cases List.map_eq_nil_iff.1 hothers
      have hno : base.kind ≠ .keyword .external := by simp [hbase]
      exact .refuse hno (.bind (reads_typeWord hbase last rest stop) (hread _))
  | true =>
      obtain ⟨word, others, rfl, hword, hothers⟩ := List.map_eq_cons_iff.1 opening
      obtain ⟨base, others, rfl, hbase, hothers⟩ := List.map_eq_cons_iff.1 hothers
      cases List.map_eq_nil_iff.1 hothers
      exact .accept hword (.bind (reads_typeWord hbase word.span rest stop) (hread _))

/-- **A declaration of prototypes is read as its prototypes.** -/
theorem reads_declaration_prototypes {isExtern : Bool} {spec : TypeSpec}
    (opening : Token.kinds before = Prototype.openingKinds isExtern spec)
    (joined : CommaJoined phrases tokens)
    (headers : List.Forall₂ Prototype.IsHeaderOf phrases ps)
    (semicolon_kind : semicolon.kind = .punct .semicolon) (hbound : tokens.length ≤ bound)
    (last : Span) (more : List Token) (stop : Token) : Reads (declaration bound)
      ⟨last, before ++ (tokens ++ semicolon :: more), stop⟩ (Prototype.listed isExtern spec ps)
      ⟨semicolon.span, more, stop⟩ := by
  cases headers with
  | nil => cases joined
  | @cons phrase p phrases ps head tail =>
      obtain ⟨name, rest, behind, rfl, name_kind, hname, hspan, hparams⟩ := head
      -- Whatever separates the first header from what follows, its parameters end in front of it.
      have hfirst : ∀ {t : Token} {others : List Token} {items : List Item}, t.Separates →
          rest.length < bound → Reads (prototypes bound) ⟨behind, t :: others, stop⟩ items
            ⟨semicolon.span, more, stop⟩ →
          Reads (declaration bound) ⟨last, before ++ name :: (rest ++ t :: others), stop⟩
            (Prototype.opening isExtern spec ++ (p.items ++ items))
            ⟨semicolon.span, more, stop⟩ := by
        intro t others items separates hlength hitems
        have hparams' := @hparams (t :: others) stop bound hlength
        have hparen : (⟨name.span, rest ++ t :: others, stop⟩ : Cursor).next.kind =
            .punct .leftParen := by
          obtain ⟨_, _, hexpect, -⟩ := reads_bind.1 hparams'
          exact (reads_expect.1 hexpect).1
        refine reads_opening opening (fun last => ?_) last
        refine .name name_kind (reads_holding.2 (.kind hparen ?_))
        rw [if_pos rfl]
        refine .bind hparams' (.bind (reads_afterHeader separates hitems) ?_)
        rw [Prototype.items, hname, hspan]
        exact .pure _
      rw [Prototype.listed, List.flatMap_cons, List.append_assoc]
      cases joined with
      | one =>
          cases tail
          exact hfirst (.inr semicolon_kind) hbound
            (reads_prototypes_end semicolon_kind behind more stop)
      | more _ comma_kind joined =>
          simp only [List.length_append, List.length_cons] at hbound
          have hothers := reads_prototypes_others comma_kind joined tail semicolon_kind
            (by omega : _ ≤ bound) behind more stop
          have hread := hfirst (.inl comma_kind) (by omega) hothers
          rw [List.append_assoc, List.cons_append]
          exact hread

/-- **A declaration of variables is read as its type word and its variables.** -/
theorem reads_declaration_objects {spec : TypeSpec}
    (opening : Token.kinds before = [.typeWord spec]) (joined : CommaJoined phrases tokens)
    (objects : List.Forall₂ Item.IsObjectOf phrases items)
    (semicolon_kind : semicolon.kind = .punct .semicolon) (hbound : tokens.length ≤ bound)
    (last : Span) (more : List Token) (stop : Token) : Reads (declaration bound)
      ⟨last, before ++ (tokens ++ semicolon :: more), stop⟩ (.spec spec :: items)
      ⟨semicolon.span, more, stop⟩ := by
  obtain ⟨name, rest, rfl, name_kind, hread⟩ := reads_declarators joined objects semicolon_kind
  obtain ⟨hkind, hread⟩ := hread more stop bound hbound
  have hopening : Token.kinds before = Prototype.openingKinds false spec := opening
  refine reads_opening hopening (fun last => ?_) last
  refine .name name_kind (reads_holding.2 (.kind rfl ?_))
  rw [if_neg (by exact hkind)]
  exact .bind hread (.pure _)

/-- One declaration of local variables. -/
def localDeclaration (bound : Nat) : Parse (List Item) := do
  let spec ← typeWord
  let (name, span) ← Parse.name .object
  let declared ← holding [.spec spec] (declarators bound name span)
  return .spec spec :: declared

theorem reads_localDeclaration {spec : TypeSpec} (opening : Token.kinds before = [.typeWord spec])
    (joined : CommaJoined phrases tokens) (objects : List.Forall₂ Item.IsObjectOf phrases items)
    (semicolon_kind : semicolon.kind = .punct .semicolon) (hbound : tokens.length ≤ bound)
    (last : Span) (more : List Token) (stop : Token) : Reads (localDeclaration bound)
      ⟨last, before ++ (tokens ++ semicolon :: more), stop⟩ (.spec spec :: items)
      ⟨semicolon.span, more, stop⟩ := by
  obtain ⟨base, others, rfl, hbase, hothers⟩ := List.map_eq_cons_iff.1 opening
  cases List.map_eq_nil_iff.1 hothers
  obtain ⟨name, rest, rfl, name_kind, hread⟩ := reads_declarators joined objects semicolon_kind
  obtain ⟨-, hread⟩ := hread more stop bound hbound
  refine .bind (reads_typeWord hbase last _ stop) (.name name_kind ?_)
  exact .bind (reads_holding.2 hread) (.pure _)

end Grammar

end Cmm
