import Cmm.Proofs.Layout
import Cmm.Proofs.Words

/-!
# What parsers get from words

A word is a token without its place. Where `Parse.Takes` says how far a parser reads, `Parse.Gets`
also says what it reads there.

* `Word`, `Punct.word` — words, and the words of marks.
* `Parse.Gets` — in front of what follows, a parser reads some words to a value with a property, and
  stops at the seam. One lemma per combinator.
* `Gets.commaSeparated` — a list of phrases is read to the values of its phrases.
-/

set_option autoImplicit false

namespace Cmm

/-- A kind of token with its text. -/
abbrev Word := Kind × String

/-- The word of a mark. -/
def Punct.word (mark : Punct) : Word := (.punct mark, mark.spelling)

/-- The kinds of some words. -/
def Word.kinds (w : List Word) : List Kind := w.map Prod.fst

/-- Phrases with commas between them. -/
def Word.commaJoined : List (List Word) → List Word
  | [] => []
  | [w] => w
  | w :: next :: rest => w ++ Punct.comma.word :: commaJoined (next :: rest)

/-- A phrase is no longer than the list that it is in. -/
theorem Word.length_le_commaJoined {w : List Word} {ws : List (List Word)} (h : w ∈ ws) :
    w.length ≤ (commaJoined ws).length := by
  induction ws with
  | nil => cases h
  | cons v ws ih =>
      cases ws with
      | nil =>
          cases List.mem_singleton.1 h
          exact Nat.le_refl _
      | cons next rest =>
          rw [commaJoined, List.length_append, List.length_cons]
          rcases List.mem_cons.1 h with rfl | hmem
          · omega
          · have := ih hmem
            omega

/-- There is one comma less than there are phrases. -/
theorem Word.length_le_length_commaJoined (ws : List (List Word)) :
    ws.length ≤ (commaJoined ws).length + 1 := by
  induction ws with
  | nil => exact Nat.zero_le _
  | cons v ws ih =>
      cases ws with
      | nil => exact Nat.succ_le_succ (Nat.zero_le _)
      | cons next rest =>
          rw [commaJoined, List.length_append, List.length_cons, List.length_cons]
          rw [List.length_cons] at ih ⊢
          omega

@[simp] theorem Word.kinds_nil : kinds [] = [] := rfl

@[simp] theorem Word.kinds_cons (x : Word) (w : List Word) : kinds (x :: w) = x.1 :: kinds w := rfl

@[simp] theorem Word.kinds_append (v w : List Word) : kinds (v ++ w) = kinds v ++ kinds w :=
  List.map_append

namespace Parse

variable {α β : Type} {p : Parse α} {P Q : α → Prop} {R : β → Prop}
variable {u v w : List Word} {x : Word} {k : List Kind}

/-- In front of tokens of the kinds `k`, a parser reads the words `w` to a value with a property,
and stops at the seam. -/
def Gets (p : Parse α) (w : List Word) (k : List Kind) (P : α → Prop) : Prop :=
  ∀ (last : Span) (tokens rest : List Token) (stop : Token), stop.kind = .endOfFile →
    tokens.map Token.word = w → rest.map (·.kind) = k →
    ∃ a last', Reads p ⟨last, tokens ++ rest, stop⟩ a ⟨last', rest, stop⟩ ∧ P a

/-- The kinds that are left are those of the words and of what follows them. -/
theorem kinds_of_words (last : Span) {tokens rest : List Token} (stop : Token)
    (hw : tokens.map Token.word = w) (hk : rest.map (·.kind) = k) :
    (⟨last, tokens ++ rest, stop⟩ : Cursor).kinds = Word.kinds w ++ k := by
  subst hw hk
  simp [Cursor.kinds, Word.kinds, Token.word, Function.comp_def]

/-- The kind of the token at a cursor is the first of the kinds that are left. -/
theorem kind_next_of_words (last : Span) {tokens rest : List Token} {stop : Token}
    (hstop : stop.kind = .endOfFile) (hw : tokens.map Token.word = w)
    (hk : rest.map (·.kind) = k) :
    (⟨last, tokens ++ rest, stop⟩ : Cursor).next.kind = Kind.first (Word.kinds w ++ k) := by
  rw [Cursor.kind_next hstop, kinds_of_words last stop hw hk]

namespace Gets

theorem pure {a : α} (h : P a) : Gets (Pure.pure a) [] k P := by
  intro last tokens rest stop _ hw _
  rw [List.map_eq_nil_iff] at hw
  subst hw
  exact ⟨a, last, .pure a, h⟩

theorem bind {f : α → Parse β} (hp : Gets p u (Word.kinds v ++ k) P)
    (hf : ∀ a, P a → Gets (f a) v k R) : Gets (p >>= f) (u ++ v) k R := by
  intro last tokens rest stop hstop hw hk
  obtain ⟨first, second, rfl, hu, hv⟩ := List.map_eq_append_iff.1 hw
  have hkinds : (second ++ rest).map (·.kind) = Word.kinds v ++ k := by
    subst hv hk
    simp [Word.kinds, Token.word, Function.comp_def]
  obtain ⟨a, last₁, hread, ha⟩ := hp last first (second ++ rest) stop hstop hu hkinds
  obtain ⟨b, last₂, hread', hb⟩ := hf a ha last₁ second rest stop hstop hv hk
  rw [List.append_assoc]
  exact ⟨b, last₂, hread.bind hread', hb⟩

/-- What is read has every property that follows from its own. -/
theorem imp (h : Gets p w k P) (himp : ∀ a, P a → Q a) : Gets p w k Q := by
  intro last tokens rest stop hstop hw hk
  obtain ⟨a, last', hread, ha⟩ := h last tokens rest stop hstop hw hk
  exact ⟨a, last', hread, himp a ha⟩

/-- A step that reads one word. -/
theorem cons {f : α → Parse β} (hp : Gets p [x] (Word.kinds v ++ k) P)
    (hf : ∀ a, P a → Gets (f a) v k R) : Gets (p >>= f) (x :: v) k R := bind hp hf

/-- A step behind which nothing more is read. -/
theorem last {f : α → Parse β} (hp : Gets p w k P) (hf : ∀ a, P a → Gets (f a) [] k R) :
    Gets (p >>= f) w k R := by
  have h : Gets (p >>= f) (w ++ []) k R := bind hp hf
  rwa [List.append_nil] at h

/-- A look at the next kind, which is the first of what is there. -/
theorem kind {f : Kind → Parse β} {y : Kind} (hy : Kind.first (Word.kinds w ++ k) = y)
    (h : Gets (f y) w k R) : Gets (Parse.kind >>= f) w k R := by
  intro last tokens rest stop hstop hw hk
  obtain ⟨b, last', hread, hb⟩ := h last tokens rest stop hstop hw hk
  have hnext := kind_next_of_words last hstop hw hk
  rw [hy] at hnext
  exact ⟨b, last', .kind hnext hread, hb⟩

/-- A look at the kind behind the next one. -/
theorem kindBehind {f : Kind → Parse β} {y : Kind} (hy : Kind.second (Word.kinds w ++ k) = y)
    (h : Gets (f y) w k R) : Gets (Parse.kindBehind >>= f) w k R := by
  intro last tokens rest stop hstop hw hk
  obtain ⟨b, last', hread, hb⟩ := h last tokens rest stop hstop hw hk
  have hbehind : (⟨last, tokens ++ rest, stop⟩ : Cursor).kindBehind = y := by
    rw [Cursor.kindBehind_eq, kinds_of_words last stop hw hk, hy]
  exact ⟨b, last', (reads_kindBehind.2 ⟨hbehind.symm, rfl⟩).bind hread, hb⟩

/-- A look at the next token, which has the first of the words. -/
theorem next {f : Token → Parse β} (h : ∀ t, t.word = x → Gets (f t) (x :: v) k R) :
    Gets (Parse.next >>= f) (x :: v) k R := by
  intro last tokens rest stop hstop hw hk
  cases tokens with
  | nil => cases hw
  | cons t tokens =>
      have hword : t.word = x := (List.cons.inj hw).1
      obtain ⟨b, last', hread, hb⟩ := h t hword last (t :: tokens) rest stop hstop hw hk
      exact ⟨b, last', (reads_next.2 ⟨rfl, rfl⟩).bind hread, hb⟩

theorem spanFrom {f : Span → Parse β} {first : Span} (h : ∀ span, Gets (f span) w k R) :
    Gets (Parse.spanFrom first >>= f) w k R := by
  intro last tokens rest stop hstop hw hk
  obtain ⟨b, last', hread, hb⟩ := h (first.hull last) last tokens rest stop hstop hw hk
  exact ⟨b, last', (reads_spanFrom.2 ⟨rfl, rfl⟩).bind hread, hb⟩

theorem advance : Gets Parse.advance [x] k fun _ => True := by
  intro last tokens rest stop _ hw _
  obtain ⟨t, rfl, -⟩ := List.map_eq_singleton_iff.1 hw
  exact ⟨(), t.span, reads_advance.2 rfl, trivial⟩

/-- A look at a token that says how to go on behind it. -/
theorem opening {f : Token → Parse β} {g : Span → Parse β}
    (hf : ∀ span, f ⟨x.1, x.2, span⟩ = Parse.advance >>= fun _ => g span)
    (h : ∀ span, Gets (g span) v k R) : Gets (Parse.next >>= f) (x :: v) k R := by
  apply next
  rintro ⟨kind, text, span⟩ rfl
  have hgo : f ⟨kind, text, span⟩ = Parse.advance >>= fun _ => g span := hf span
  rw [hgo]
  apply cons advance
  intro _ _
  exact h span

theorem expect {mark : Punct} {place : Place} :
    Gets (Parse.expect mark place) [mark.word] k fun _ => True := by
  intro last tokens rest stop _ hw _
  obtain ⟨t, rfl, hword⟩ := List.map_eq_singleton_iff.1 hw
  have hkind : t.kind = .punct mark := congrArg Prod.fst hword
  exact ⟨(), t.span, .expect hkind, trivial⟩

theorem name {role : NameRole} {lexeme : String} :
    Gets (Parse.name role) [(.identifier, lexeme)] k (·.1 = lexeme) := by
  intro last tokens rest stop _ hw _
  obtain ⟨t, rfl, hword⟩ := List.map_eq_singleton_iff.1 hw
  obtain ⟨hkind, hlexeme⟩ : t.kind = .identifier ∧ t.lexeme = lexeme := Prod.mk.inj hword
  exact ⟨(t.lexeme, t.span), t.span, reads_name.2 ⟨hkind, rfl, rfl⟩, hlexeme⟩

theorem accept {yes no : Bool → Parse β} (h : Gets (yes true) w k R) :
    Gets (Parse.accept x.1 >>= fun found => if found then yes found else no found) (x :: w) k
      R := by
  intro last tokens rest stop hstop hw hk
  cases tokens with
  | nil => cases hw
  | cons t tokens =>
      obtain ⟨hword, htail⟩ := List.cons.inj hw
      have hkind : t.kind = x.1 := congrArg Prod.fst hword
      obtain ⟨b, last', hread, hb⟩ := h t.span tokens rest stop hstop htail hk
      exact ⟨b, last', .accept hkind hread, hb⟩

theorem refuse {yes no : Bool → Parse β} {y : Kind}
    (hne : Kind.first (Word.kinds w ++ k) ≠ y) (h : Gets (no false) w k R) :
    Gets (Parse.accept y >>= fun found => if found then yes found else no found) w k R := by
  intro last tokens rest stop hstop hw hk
  obtain ⟨b, last', hread, hb⟩ := h last tokens rest stop hstop hw hk
  have hnext := kind_next_of_words last hstop hw hk
  exact ⟨b, last', .refuse (by rwa [hnext]) hread, hb⟩

theorem holding {items : List Item} (h : Gets p w k P) : Gets (Parse.holding items p) w k P := by
  intro last tokens rest stop hstop hw hk
  obtain ⟨a, last', hread, ha⟩ := h last tokens rest stop hstop hw hk
  exact ⟨a, last', reads_holding.2 hread, ha⟩

/-- The mark that closes a phrase. -/
theorem closing {mark : Punct} {place : Place} {items : List Item} {a : α} (h : P a) :
    Gets (Parse.holding items (Parse.expect mark place) >>= fun _ => Pure.pure a) [mark.word] k
      P := by
  apply expect.holding.last
  intro _ _
  exact .pure h

/-- One or more phrases with commas between them are read to their values, one by one. A comma can
follow each of them, and none follows the last one. -/
theorem commaSeparated {γ : Type} {words : γ → List Word} {V : γ → α → Prop} {F : Kind → Prop}
    (hcomma : F (.punct .comma)) {es : List γ}
    (hp : ∀ e ∈ es, ∀ k, F (Kind.first k) → Gets p (words e) k (V e)) (items : α → List Item)
    (hne : es ≠ []) {fuel : Nat} (hfuel : es.length ≤ fuel + 1) (hF : F (Kind.first k))
    (hk : Kind.first k ≠ .punct .comma) :
    Gets (Parse.commaSeparated p items fuel) (Word.commaJoined (es.map words)) k
      (List.Forall₂ V es) := by
  induction es generalizing fuel with
  | nil => exact absurd rfl hne
  | cons e es ih =>
      cases es with
      | nil =>
          have he := hp e List.mem_cons_self k hF
          rw [List.map_singleton, Word.commaJoined]
          cases fuel with
          | zero =>
              apply he.last
              intro a ha
              exact .pure (.cons ha .nil)
          | succ fuel =>
              apply he.last
              intro a ha
              apply Gets.refuse (w := []) hk
              exact .pure (.cons ha .nil)
      | cons next rest =>
          rw [List.length_cons] at hfuel
          cases fuel with
          | zero => simp at hfuel
          | succ fuel =>
              have hlength : (next :: rest).length ≤ fuel + 1 := by omega
              have hrest := ih (fun e' he' => hp e' (.tail _ he')) (List.cons_ne_nil _ _) hlength
              rw [List.map_cons, List.map_cons, Word.commaJoined, ← List.map_cons]
              apply Gets.bind
              · apply hp e List.mem_cons_self
                exact hcomma
              · intro a ha
                apply Gets.accept (x := Punct.comma.word)
                apply hrest.holding.last
                intro as has
                exact .pure (.cons ha has)

end Gets

end Parse

end Cmm
