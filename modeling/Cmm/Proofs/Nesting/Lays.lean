import Cmm.Proofs.Halting.Walks
import Cmm.Proofs.Nesting.Trees

/-!
# Where parsers read what

* `Cursor.Ordered` — the tokens that are left stand one behind the other, behind the token before
  the cursor. Moving on keeps them so.
* `Parse.Lays` — among such tokens, what a parser reads is related to the last token that it reads.
  One lemma per combinator says how that follows from what the steps read; where the cursor stands
  is known by the span of the token before it.
-/

set_option autoImplicit false

namespace Cmm

namespace Cursor

variable {n size : Nat} {c c' : Cursor}

/-- At most `n` tokens are left in front of the end. They stand one behind the other, behind the
token before the cursor and up to `size`. -/
structure Ordered (n size : Nat) (c : Cursor) : Prop where
  kind_stop : c.stop.kind = .endOfFile
  few : c.rest.length ≤ n
  laid : Span.Laid c.last.stop size (c.rest.map (·.span))

theorem Ordered.advance (h : c.Ordered n size) : c.advance.Ordered n size := by
  obtain ⟨hstop, hfew, hlaid⟩ := h
  unfold Cursor.advance
  cases hrest : c.rest with
  | nil => exact ⟨hstop, hfew, hlaid⟩
  | cons t rest =>
      rw [hrest] at hfew hlaid
      exact ⟨hstop, Nat.le_of_succ_le hfew, hlaid.2.2⟩

theorem Ordered.upTo_advance (h : c.Ordered n size) : c.last.UpTo c.advance.last := by
  have hlaid := h.laid
  unfold Cursor.advance
  cases hrest : c.rest with
  | nil => exact .refl _
  | cons t rest =>
      rw [hrest] at hlaid
      exact Span.upTo_of_stop_le hlaid.1

/-- A token in front of the end stands behind the one before it. -/
theorem Ordered.next (h : c.Ordered n size) (hne : c.next.kind ≠ .endOfFile) :
    c.advance.last = c.next.span ∧ c.last.stop ≤ c.next.span.offset ∧
      c.next.span.offset < c.next.span.stop := by
  have hlaid := h.laid
  rw [(rest_eq h.kind_stop hne).1] at hlaid
  refine ⟨?_, hlaid.1, hlaid.2.1⟩
  unfold Cursor.advance Cursor.next at *
  cases hrest : c.rest with
  | nil =>
      rw [hrest] at hne
      exact absurd h.kind_stop hne
  | cons t rest => rfl

/-- The token before the cursor has a span. -/
def Behind (s : Span) (c : Cursor) : Prop := c.last = s

/-- Behind a token with a span stands another one. -/
def Between (s : Span) (t : Token) (c : Cursor) : Prop := c.last = s ∧ c.next = t

end Cursor

namespace Parse

open Cursor (Behind Between)

variable {α β : Type} {n size : Nat} {C : Cursor → Prop} {p : Parse α} {f : α → Parse β} {s : Span}
  {R : Span → α → Prop} {T : Span → β → Prop}

/-- Among ordered tokens, what a parser reads is related to the span of the last token it reads. -/
def Lays (n size : Nat) (C : Cursor → Prop) (p : Parse α) (R : Span → α → Prop) : Prop :=
  ∀ c a c', c.Ordered n size → C c → Reads p c a c' →
    c'.Ordered n size ∧ c.last.UpTo c'.last ∧ R c'.last a

namespace Lays

theorem imp {S : Span → α → Prop} (h : Lays n size C p R) (himp : ∀ s a, R s a → S s a) :
    Lays n size C p S := by
  intro c a c' hc hC hr
  obtain ⟨hc', hupTo, hR⟩ := h c a c' hc hC hr
  exact ⟨hc', hupTo, himp _ a hR⟩

theorem yields {P : α → Prop} (h : Lays n size C p R) (hP : Yields p P) :
    Lays n size C p fun s a => R s a ∧ P a := by
  intro c a c' hc hC hr
  obtain ⟨hc', hupTo, hR⟩ := h c a c' hc hC hr
  exact ⟨hc', hupTo, hR, hP c a c' hr⟩

/-- A parser that halts moves on. -/
theorem of_halts {d : Nat} {q : Parse α} (h : Halts n d p q) :
    Lays n size C p fun _ _ => True := by
  intro c a c' hc _ hr
  obtain ⟨⟨places, way⟩, -, -⟩ := h c hc.kind_stop hc.few
  have hstep : ∀ place : Cursor, place.Ordered n size ∧ c.last.UpTo place.last →
      place.advance.Ordered n size ∧ c.last.UpTo place.advance.last := fun place hplace =>
    ⟨hplace.1.advance, hplace.2.trans hplace.1.upTo_advance⟩
  obtain ⟨-, hend⟩ := way.keeps hstep ⟨hc, .refl _⟩
  obtain ⟨hc', hupTo⟩ := hend a c' hr
  exact ⟨hc', hupTo, trivial⟩

theorem pure {a : α} (h : R s a) : Lays n size (Behind s) (Pure.pure a) R := by
  rintro c b c' hc rfl hr
  obtain ⟨rfl, rfl⟩ := reads_pure.1 hr
  exact ⟨hc, .refl _, h⟩

theorem bind (hp : Lays n size (Behind s) p R)
    (hf : ∀ s' a, s.UpTo s' → R s' a → Lays n size (Behind s') (f a) T) :
    Lays n size (Behind s) (p >>= f) T := by
  rintro c b c' hc rfl hr
  obtain ⟨a, c₁, ha, hb⟩ := reads_bind.1 hr
  obtain ⟨hc₁, hupTo, hR⟩ := hp c a c₁ hc rfl ha
  obtain ⟨hc', hupTo', hT⟩ := hf c₁.last a hupTo hR c₁ b c' hc₁ rfl hb
  exact ⟨hc', hupTo.trans hupTo', hT⟩

theorem holding {items : List Item} (h : Lays n size C p R) :
    Lays n size C (Parse.holding items p) R :=
  fun c a c' hc hC hr => h c a c' hc hC (reads_holding.1 hr)

theorem fail {expected : Expected} : Lays n size C (Parse.fail expected : Parse α) R :=
  fun _ _ _ _ _ hr => absurd hr reads_fail

/-- A look ahead moves no cursor. -/
theorem look (still : ∀ c a c', Reads p c a c' → c' = c)
    (hf : ∀ a, Lays n size C (f a) T) : Lays n size C (p >>= f) T := by
  intro c b c' hc hC hr
  obtain ⟨a, c₁, ha, hb⟩ := reads_bind.1 hr
  cases still c a c₁ ha
  exact hf a c b c' hc hC hb

theorem kind {f : Kind → Parse β} (hf : ∀ k, Lays n size C (f k) T) :
    Lays n size C (Parse.kind >>= f) T :=
  look (fun _ _ _ h => (reads_kind.1 h).2) hf

theorem kindBehind {f : Kind → Parse β} (hf : ∀ k, Lays n size C (f k) T) :
    Lays n size C (Parse.kindBehind >>= f) T :=
  look (fun _ _ _ h => (reads_kindBehind.1 h).2) hf

/-- Nothing may be known of the token at the cursor. -/
theorem anyToken {t : Token} (h : Lays n size (Behind s) p R) :
    Lays n size (Between s t) p R := fun c a c' hc hC hr => h c a c' hc hC.1 hr

theorem next {f : Token → Parse β} (hf : ∀ t, Lays n size (Between s t) (f t) T) :
    Lays n size (Behind s) (Parse.next >>= f) T := by
  intro c b c' hc hs hr
  obtain ⟨t, c₁, ht, hb⟩ := reads_bind.1 hr
  obtain ⟨rfl, rfl⟩ := reads_next.1 ht
  exact hf c₁.next c₁ b c' hc ⟨hs, rfl⟩ hb

/-- The token at the cursor is read. -/
theorem advance {t : Token} {f : Unit → Parse β} (hne : t.kind ≠ .endOfFile)
    (hf : s.stop ≤ t.span.offset → t.span.offset < t.span.stop →
      Lays n size (Behind t.span) (f ()) T) :
    Lays n size (Between s t) (Parse.advance >>= f) T := by
  rintro c b c' hc ⟨rfl, rfl⟩ hr
  obtain ⟨u, c₁, hadvance, hb⟩ := reads_bind.1 hr
  cases reads_advance.1 hadvance
  obtain ⟨hlast, hbehind, hnonempty⟩ := hc.next hne
  obtain ⟨hc', hupTo, hT⟩ := hf hbehind hnonempty c.advance b c' hc.advance hlast hb
  exact ⟨hc', hc.upTo_advance.trans hupTo, hT⟩

/-- Trees of a phrase stand between the token before it and its end, if they stand between the
beginning of its first token and its end. -/
theorem opened {trees : α → List Node} {t : Token} (hne : t.kind ≠ .endOfFile)
    (hp : t.span.offset < t.span.stop → Lays n size (Behind t.span) p fun s' a =>
      Node.Laid t.span.offset s'.stop (trees a)) :
    Lays n size (Between s t) (do Parse.advance; p) fun s' a =>
      Node.Laid s.stop s'.stop (trees a) :=
  .advance hne fun behind nonempty =>
    (hp nonempty).imp fun _ _ h => h.mono behind (Nat.le_refl _)

/-- A token may be read. -/
theorem move : Lays n size C Parse.advance fun _ _ => True := of_halts Halts.advance

theorem spanFrom {first : Span} {f : Span → Parse β} (h : first.UpTo s)
    (hf : ∀ span : Span, span.offset = first.offset → span.stop = s.stop →
      Lays n size (Behind s) (f span) T) :
    Lays n size (Behind s) (Parse.spanFrom first >>= f) T := by
  rintro c b c' hc rfl hr
  obtain ⟨span, c₁, hspan, hb⟩ := reads_bind.1 hr
  obtain ⟨rfl, rfl⟩ := reads_spanFrom.1 hspan
  exact hf _ h.offset_hull h.stop_hull c₁ b c' hc rfl hb

/-- A token that has to be there stands behind the last one. -/
theorem require {k : Kind} {expected : Expected} (hne : k ≠ .endOfFile) :
    Lays n size (Behind s) (Parse.require k expected) fun s' t =>
      t.span = s' ∧ s.stop ≤ s'.offset ∧ s'.offset < s'.stop := by
  rintro c t c' hc rfl hr
  obtain ⟨hk, rfl, rfl⟩ := reads_require.1 hr
  obtain ⟨hlast, hbehind, hnonempty⟩ := hc.next (hk ▸ hne)
  exact ⟨hc.advance, hc.upTo_advance, hlast.symm, by rw [hlast]; exact ⟨hbehind, hnonempty⟩⟩

theorem expect {mark : Punct} {place : Place} :
    Lays n size (Behind s) (Parse.expect mark place) fun s' _ =>
      s.stop ≤ s'.offset ∧ s'.offset < s'.stop :=
  (require (by simp)).bind fun _ _ _ ht => pure ht.2

theorem name {role : NameRole} :
    Lays n size (Behind s) (Parse.name role) fun s' r =>
      r.2 = s' ∧ s.stop ≤ s'.offset ∧ s'.offset < s'.stop :=
  (require (by simp)).bind fun _ _ _ ht => pure ht

/-- Two ways to go on, with and without a token of some kind. -/
theorem accept {k : Kind} {f : Bool → Parse β}
    (hyes : ∀ s', s.UpTo s' → Lays n size (Behind s') (f true) T)
    (hno : Lays n size (Behind s) (f false) T) :
    Lays n size (Behind s) (Parse.accept k >>= f) T := by
  unfold Parse.accept
  rw [bind_assoc]
  refine kind fun k' => ?_
  split
  · simp only [bind_assoc, pure_bind]
    exact move.bind fun s' _ hupTo _ => hyes s' hupTo
  · simpa only [pure_bind] using hno

/-- The mark at the end of a phrase. -/
theorem close {mark : Punct} {place : Place} {items : List Item} {b : β}
    (h : ∀ s', s.UpTo s' → T s' b) :
    Lays n size (Behind s) (do Parse.holding items (Parse.expect mark place); return b) T :=
  expect.holding.bind fun s' _ hupTo _ => pure (h s' hupTo)

/-- A mark that has been looked at ends a phrase. -/
theorem closeAt {token : Token} {mark : Punct} {place : Place} {items : List Item} {b : β}
    (h : s.stop ≤ token.span.offset → token.span.offset < token.span.stop →
      token.span.stop ≤ size → T token.span b) :
    Lays n size (Between s token)
      (do Parse.holding items (Parse.expect mark place); return b) T := by
  rintro c a c' hc ⟨rfl, rfl⟩ hr
  obtain ⟨u, c₁, hmark, hr⟩ := reads_bind.1 hr
  obtain ⟨hk, rfl⟩ := reads_expect.1 (reads_holding.1 hmark)
  obtain ⟨rfl, rfl⟩ := reads_pure.1 hr
  obtain ⟨hlast, hbehind, hnonempty⟩ := hc.next (by rw [hk]; simp)
  have hwithin := hc.advance.laid.le
  rw [hlast] at hwithin
  refine ⟨hc.advance, hc.upTo_advance, ?_⟩
  rw [hlast]
  exact h hbehind hnonempty hwithin

/-- Trees of phrases with commas between them stand one behind the other. -/
theorem commaSeparated {tree : α → Node}
    (hp : ∀ s, Lays n size (Behind s) p fun s' a => Node.Laid s.stop s'.stop [tree a])
    (items : α → List Item) (fuel : Nat) (s : Span) :
    Lays n size (Behind s) (Parse.commaSeparated p items fuel) fun s' as =>
      Node.Laid s.stop s'.stop (as.map tree) := by
  induction fuel generalizing s with
  | zero => exact (hp s).bind fun s' a _ ha => pure ha
  | succ fuel ih =>
      refine (hp s).bind fun s' a _ ha => accept (fun s'' hupTo => ?_) (pure ha)
      refine (ih s'').holding.bind fun s₃ as _ has => pure ?_
      exact ha.append (has.mono hupTo.stop (Nat.le_refl _))

end Lays

end Parse

end Cmm
