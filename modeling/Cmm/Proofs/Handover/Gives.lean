import Cmm.Proofs.Handover.Parts

/-!
# What parsers read from which tokens

* `Parse.Gives` — what a parser reads and the tokens that it reads it from are related. One lemma per
  combinator says how the relation of a parser follows from those of its steps.
* `Gives.of_spells` — the kinds of the tokens are a word that the parser spells.
-/

set_option autoImplicit false

namespace Cmm

namespace Parse

variable {α β : Type} {p : Parse α} {f : α → Parse β} {R S : List Token → α → Prop}
  {T : List Token → β → Prop}

/-- What a parser reads is related to the tokens that it reads it from. -/
def Gives (p : Parse α) (R : List Token → α → Prop) : Prop :=
  ∀ c a c', c.stop.kind = .endOfFile → Reads p c a c' →
    ∃ tokens, c.rest = tokens ++ c'.rest ∧ c'.stop = c.stop ∧ R tokens a

namespace Gives

/-- The kinds of the tokens that are read are a word that the parser spells. -/
theorem of_spells {l : Language Kind} (h : Spells Anywhere p l) :
    Gives p fun tokens _ => Token.kinds tokens ∈ l := by
  intro c a c' hstop hr
  obtain ⟨w, hw, hreach⟩ := h c a c' hstop trivial hr
  obtain ⟨tokens, hrest, rfl⟩ := hreach.tokens
  exact ⟨tokens, hrest, hreach.stop, hw⟩

theorem and (h : Gives p R) (h' : Gives p S) : Gives p fun tokens a => R tokens a ∧ S tokens a := by
  intro c a c' hstop hr
  obtain ⟨tokens, hrest, hend, hR⟩ := h c a c' hstop hr
  obtain ⟨tokens', hrest', -, hS⟩ := h' c a c' hstop hr
  rw [List.append_cancel_right (hrest'.symm.trans hrest)] at hS
  exact ⟨tokens, hrest, hend, hR, hS⟩

theorem yields {P : α → Prop} (h : Gives p R) (hP : Yields p P) :
    Gives p fun tokens a => R tokens a ∧ P a := by
  intro c a c' hstop hr
  obtain ⟨tokens, hrest, hend, hR⟩ := h c a c' hstop hr
  exact ⟨tokens, hrest, hend, hR, hP c a c' hr⟩

theorem imp (h : Gives p R) (himp : ∀ tokens a, R tokens a → S tokens a) : Gives p S := by
  intro c a c' hstop hr
  obtain ⟨tokens, hrest, hend, hR⟩ := h c a c' hstop hr
  exact ⟨tokens, hrest, hend, himp tokens a hR⟩

theorem pure {a : α} (h : R [] a) : Gives (Pure.pure a) R := by
  intro c b c' hstop hr
  obtain ⟨rfl, rfl⟩ := reads_pure.1 hr
  exact ⟨[], rfl, rfl, h⟩

theorem bind (hp : Gives p R) (hf : ∀ tokens a, R tokens a →
    Gives (f a) fun more b => T (tokens ++ more) b) : Gives (p >>= f) T := by
  intro c b c' hstop hr
  obtain ⟨a, c₁, ha, hb⟩ := reads_bind.1 hr
  obtain ⟨tokens, hrest, hend, hR⟩ := hp c a c₁ hstop ha
  obtain ⟨more, hrest', hend', hT⟩ := hf tokens a hR c₁ b c' (by rw [hend, hstop]) hb
  refine ⟨tokens ++ more, ?_, hend'.trans hend, hT⟩
  rw [hrest, hrest', List.append_assoc]

theorem holding {items : List Item} (hp : Gives p R) : Gives (Parse.holding items p) R :=
  fun c a c' hstop hr => hp c a c' hstop (reads_holding.1 hr)

theorem fail {expected : Expected} : Gives (Parse.fail expected : Parse α) R :=
  fun _ _ _ _ hr => absurd hr reads_fail

/-- A look ahead reads no token. -/
theorem look (still : ∀ c a c', Reads p c a c' → c' = c) (hf : ∀ a, Gives (f a) T) :
    Gives (p >>= f) T := by
  intro c b c' hstop hr
  obtain ⟨a, c₁, ha, hb⟩ := reads_bind.1 hr
  cases still c a c₁ ha
  exact hf a c b c' hstop hb

theorem kind {f : Kind → Parse β} (hf : ∀ k, Gives (f k) T) : Gives (Parse.kind >>= f) T :=
  look (fun _ _ _ h => (reads_kind.1 h).2) hf

theorem kindBehind {f : Kind → Parse β} (hf : ∀ k, Gives (f k) T) :
    Gives (Parse.kindBehind >>= f) T :=
  look (fun _ _ _ h => (reads_kindBehind.1 h).2) hf

theorem next {f : Token → Parse β} (hf : ∀ t, Gives (f t) T) : Gives (Parse.next >>= f) T :=
  look (fun _ _ _ h => (reads_next.1 h).2) hf

theorem spanFrom {f : Span → Parse β} {first : Span} (hf : ∀ span, Gives (f span) T) :
    Gives (Parse.spanFrom first >>= f) T :=
  look (fun _ _ _ h => (reads_spanFrom.1 h).2) hf

theorem require {k : Kind} {expected : Expected} (hne : k ≠ .endOfFile) :
    Gives (Parse.require k expected) fun tokens t => tokens = [t] ∧ t.kind = k := by
  intro c t c' hstop hr
  obtain ⟨hk, rfl, rfl⟩ := reads_require.1 hr
  obtain ⟨hrest, hend⟩ := Cursor.rest_eq hstop (hk ▸ hne)
  exact ⟨[c.next], hrest, hend, rfl, hk⟩

/-- The token at the cursor is read, if there is one. -/
theorem advance : Gives Parse.advance fun tokens _ => tokens = [] ∨ ∃ t, tokens = [t] := by
  intro c u c' hstop hr
  cases reads_advance.1 hr
  unfold Cursor.advance
  cases hrest : c.rest with
  | nil => exact ⟨[], hrest.symm, rfl, .inl rfl⟩
  | cons t rest => exact ⟨[t], rfl, rfl, .inr ⟨t, rfl⟩⟩

theorem expect {mark : Punct} {place : Place} : Gives (Parse.expect mark place)
    fun tokens _ => ∃ t : Token, tokens = [t] ∧ t.kind = .punct mark := by
  unfold Parse.expect
  refine (require (by simp)).bind fun tokens t ht => .pure ?_
  rw [List.append_nil]
  exact ⟨t, ht⟩

theorem name {role : NameRole} : Gives (Parse.name role) fun tokens r =>
    ∃ t : Token, tokens = [t] ∧ t.kind = .identifier ∧ r = (t.lexeme, t.span) := by
  unfold Parse.name
  refine (require (by simp)).bind fun tokens t ht => .pure ?_
  rw [List.append_nil]
  exact ⟨t, ht.1, ht.2, rfl⟩

/-- Two ways to go on, with and without a token of some kind. -/
theorem accept {k : Kind} {f : Bool → Parse β} (hne : k ≠ .endOfFile)
    (hyes : ∀ t : Token, t.kind = k → Gives (f true) fun more b => T (t :: more) b)
    (hno : Gives (f false) T) : Gives (Parse.accept k >>= f) T := by
  intro c b c' hstop hr
  obtain ⟨found, c₁, hfound, hb⟩ := reads_bind.1 hr
  rcases reads_accept.1 hfound with ⟨hk, rfl, rfl⟩ | ⟨-, rfl, rfl⟩
  · obtain ⟨hrest, hend⟩ := Cursor.rest_eq hstop (hk ▸ hne)
    obtain ⟨more, hrest', hend', hT⟩ := hyes c.next hk _ b c' (by rw [hend, hstop]) hb
    refine ⟨c.next :: more, ?_, hend'.trans hend, hT⟩
    rw [hrest, hrest', List.cons_append]
  · exact hno _ b c' hstop hb

/-- A token that may be missing. -/
theorem acceptOptional {k : Kind} {f : Bool → Parse β} (hne : k ≠ .endOfFile)
    (hf : ∀ tokens found, (found = false → tokens = []) →
      Gives (f found) fun more b => T (tokens ++ more) b) : Gives (Parse.accept k >>= f) T :=
  .accept hne (fun t _ => hf [t] true nofun) (hf [] false fun _ => rfl)

end Gives

end Parse

end Cmm
