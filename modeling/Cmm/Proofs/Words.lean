import Mathlib.Order.CompletePartialOrder
import Cmm.Proofs.Ebnf
import Cmm.Proofs.Parse

/-!
# The words that parsers read

A word is a list of kinds of tokens. Texts, spans and results play no part here.

* `Cursor.Reaches` — one place lies behind another, with a word between them.
* `Parse.Spells` — whatever a parser reads is a word of a language; where the first kind decides
  what is read, it may be known beforehand.
* `Parse.Takes` — a parser reads a word in front of another one, up to the seam.

Both come with one lemma per combinator, so that what a phrase spells or takes follows the phrase.
-/

set_option autoImplicit false

namespace Cmm

/-- The kinds of the tokens that are left. -/
def Cursor.kinds (c : Cursor) : List Kind := c.rest.map (·.kind)

/-- The first kind of a word; behind the last one, the program ends. -/
def Kind.first (w : List Kind) : Kind := w.headD .endOfFile

/-- The second kind of a word. -/
def Kind.second (w : List Kind) : Kind := Kind.first w.tail

open Ebnf Computability

/-- Behind a phrase of a list stands a comma or what follows the list. -/
theorem Kind.first_others {l : Language Kind} {w : List Kind}
    (hw : w ∈ (letter (.punct .comma) * l)∗) (k : List Kind) :
    Kind.first (w ++ k) = .punct .comma ∨ Kind.first (w ++ k) = Kind.first k := by
  rcases mem_kstar_iff.1 hw with rfl | ⟨m, hm, v, -, rfl⟩
  · exact .inr rfl
  · obtain ⟨u, -, rfl⟩ := mem_letter_mul.1 hm
    exact .inl rfl

namespace Cursor

variable {c c' c'' : Cursor} {u v w : List Kind}

/-- A place lies behind another, with tokens between them whose kinds are a word. -/
structure Reaches (c : Cursor) (w : List Kind) (c' : Cursor) : Prop where
  stop : c'.stop = c.stop
  tokens : ∃ tokens : List Token, c.rest = tokens ++ c'.rest ∧ tokens.map (·.kind) = w

theorem Reaches.kinds (h : c.Reaches w c') : c.kinds = w ++ c'.kinds := by
  obtain ⟨tokens, hrest, rfl⟩ := h.tokens
  unfold Cursor.kinds
  rw [hrest, List.map_append]

theorem Reaches.refl (c : Cursor) : c.Reaches [] c := ⟨rfl, [], rfl, rfl⟩

theorem Reaches.trans (h : c.Reaches u c') (h' : c'.Reaches v c'') : c.Reaches (u ++ v) c'' := by
  obtain ⟨tokens, hrest, rfl⟩ := h.tokens
  obtain ⟨tokens', hrest', rfl⟩ := h'.tokens
  refine ⟨h'.stop.trans h.stop, tokens ++ tokens', ?_, List.map_append⟩
  rw [hrest, hrest', List.append_assoc]

theorem kind_next (hstop : c.stop.kind = .endOfFile) : c.next.kind = Kind.first c.kinds := by
  unfold next kinds Kind.first
  cases c.rest with
  | nil => exact hstop
  | cons t rest => rfl

theorem kindBehind_eq : c.kindBehind = Kind.second c.kinds := by
  unfold kindBehind kinds Kind.second Kind.first
  cases c.rest with
  | nil => rfl
  | cons t rest =>
      cases rest with
      | nil => rfl
      | cons t' rest => rfl

/-- The token at the cursor lies between it and the place behind it. -/
theorem Reaches.advance (hstop : c.stop.kind = .endOfFile) {k : Kind} (hk : c.next.kind = k)
    (hne : k ≠ .endOfFile) : c.Reaches [k] c.advance := by
  unfold next at hk
  unfold Cursor.advance
  cases hr : c.rest with
  | nil =>
      rw [hr] at hk
      exact absurd (hk.symm.trans hstop) hne
  | cons t rest =>
      rw [hr] at hk
      exact ⟨rfl, [t], hr, by rw [← hk]; rfl⟩

end Cursor

namespace Parse

variable {α β : Type} {p : Parse α} {f : α → Parse β} {K : Kind → Prop} {l m : Language Kind}

/-! ## Languages of parsers -/

/-- In front of a token of a kind in `K`, a parser reads words of a language only. -/
def Spells (K : Kind → Prop) (p : Parse α) (l : Language Kind) : Prop :=
  ∀ c a c', c.stop.kind = .endOfFile → K c.next.kind → Reads p c a c' →
    ∃ w ∈ l, c.Reaches w c'

/-- Nothing is known of the token at the cursor. -/
abbrev Anywhere : Kind → Prop := fun _ => True

namespace Spells

theorem le (h : Spells K p l) (hle : l ≤ m) : Spells K p m := by
  intro c a c' hstop hK hr
  obtain ⟨w, hw, hreach⟩ := h c a c' hstop hK hr
  exact ⟨w, hle hw, hreach⟩

/-- A parser spells the same where more is known. -/
theorem known (h : Spells Anywhere p l) : Spells K p l :=
  fun c a c' hstop _ hr => h c a c' hstop trivial hr

theorem pure (a : α) : Spells K (Pure.pure a) 1 := by
  intro c b c' _ _ hr
  obtain ⟨-, rfl⟩ := reads_pure.1 hr
  exact ⟨[], rfl, .refl _⟩

theorem bind (hp : Spells K p l) (hf : ∀ a, Spells Anywhere (f a) m) :
    Spells K (p >>= f) (l * m) := by
  intro c b c' hstop hK hr
  obtain ⟨a, c₁, ha, hb⟩ := reads_bind.1 hr
  obtain ⟨u, hu, hreach⟩ := hp c a c₁ hstop hK ha
  obtain ⟨v, hv, hreach'⟩ := hf a c₁ b c' (by rw [hreach.stop, hstop]) trivial hb
  exact ⟨u ++ v, Language.append_mem_mul hu hv, hreach.trans hreach'⟩

/-- A step behind which nothing more is read. -/
theorem last (hp : Spells K p l) (hf : ∀ a, Spells Anywhere (f a) 1) :
    Spells K (p >>= f) l := by
  rw [← mul_one l]
  exact hp.bind hf

theorem map {g : α → β} (hp : Spells K p l) : Spells K (g <$> p) l := by
  intro c b c' hstop hK hr
  obtain ⟨a, ha, -⟩ := reads_map.1 hr
  exact hp c a c' hstop hK ha

/-- A look at the next kind; from there on it is known. -/
theorem kind {f : Kind → Parse β} (h : ∀ k, K k → Spells (· = k) (f k) l) :
    Spells K (Parse.kind >>= f) l := by
  intro c b c' hstop hK hr
  obtain ⟨k, c₁, hk, hb⟩ := reads_bind.1 hr
  obtain ⟨rfl, rfl⟩ := reads_kind.1 hk
  exact h c₁.next.kind hK c₁ b c' hstop rfl hb

theorem next {f : Token → Parse β} (h : ∀ t, K t.kind → Spells (· = t.kind) (f t) l) :
    Spells K (Parse.next >>= f) l := by
  intro c b c' hstop hK hr
  obtain ⟨t, c₁, ht, hb⟩ := reads_bind.1 hr
  obtain ⟨rfl, rfl⟩ := reads_next.1 ht
  exact h c₁.next hK c₁ b c' hstop rfl hb

theorem kindBehind {f : Kind → Parse β} (h : ∀ k, Spells K (f k) l) :
    Spells K (Parse.kindBehind >>= f) l := by
  intro c b c' hstop hK hr
  obtain ⟨k, c₁, hk, hb⟩ := reads_bind.1 hr
  obtain ⟨rfl, rfl⟩ := reads_kindBehind.1 hk
  exact h c₁.kindBehind c₁ b c' hstop hK hb

theorem spanFrom {f : Span → Parse β} {first : Span} (h : ∀ span, Spells K (f span) l) :
    Spells K (Parse.spanFrom first >>= f) l := by
  intro c b c' hstop hK hr
  obtain ⟨span, c₁, hspan, hb⟩ := reads_bind.1 hr
  obtain ⟨rfl, rfl⟩ := reads_spanFrom.1 hspan
  exact h _ c₁ b c' hstop hK hb

/-- A token of a known kind is read. -/
theorem advance {k : Kind} (hne : k ≠ .endOfFile) : Spells (· = k) Parse.advance (letter k) := by
  intro c u c' hstop hk hr
  rw [reads_advance.1 hr]
  exact ⟨[k], singleton_mem_letter k, .advance hstop hk hne⟩

theorem require {k : Kind} {expected : Expected} (hne : k ≠ .endOfFile) :
    Spells K (Parse.require k expected) (letter k) := by
  intro c t c' hstop _ hr
  obtain ⟨hk, -, rfl⟩ := reads_require.1 hr
  exact ⟨[k], singleton_mem_letter k, .advance hstop hk hne⟩

theorem expect {mark : Punct} {place : Place} :
    Spells K (Parse.expect mark place) (letter (.punct mark)) := by
  intro c u c' hstop _ hr
  obtain ⟨hk, rfl⟩ := reads_expect.1 hr
  exact ⟨_, singleton_mem_letter _, .advance hstop hk (by simp)⟩

theorem name {role : NameRole} : Spells K (Parse.name role) (letter .identifier) := by
  intro c r c' hstop _ hr
  obtain ⟨hk, -, rfl⟩ := reads_name.1 hr
  exact ⟨_, singleton_mem_letter _, .advance hstop hk (by simp)⟩

/-- Two ways to go on, with and without a token of some kind. -/
theorem acceptThen {k : Kind} {f : Bool → Parse β} (hne : k ≠ .endOfFile)
    (hyes : Spells Anywhere (f true) l) (hno : Spells Anywhere (f false) m) :
    Spells K (Parse.accept k >>= f) (letter k * l + m) := by
  intro c b c' hstop hK hr
  obtain ⟨found, c₁, hfound, hb⟩ := reads_bind.1 hr
  rcases reads_accept.1 hfound with ⟨hk, rfl, rfl⟩ | ⟨-, rfl, rfl⟩
  · have hreach := Cursor.Reaches.advance hstop hk hne
    obtain ⟨w, hw, hreach'⟩ := hyes _ b c' (by rw [hreach.stop, hstop]) trivial hb
    exact ⟨[k] ++ w, .inl (Language.append_mem_mul (singleton_mem_letter k) hw),
      hreach.trans hreach'⟩
  · obtain ⟨w, hw, hreach⟩ := hno _ b c' hstop trivial hb
    exact ⟨w, .inr hw, hreach⟩

theorem accept {k : Kind} {yes no : Bool → Parse β} (hne : k ≠ .endOfFile)
    (hyes : Spells Anywhere (yes true) l) (hno : Spells Anywhere (no false) m) :
    Spells K (Parse.accept k >>= fun found => if found then yes found else no found)
      (letter k * l + m) :=
  acceptThen hne hyes hno

theorem holding {items : List Item} (hp : Spells K p l) : Spells K (Parse.holding items p) l :=
  fun c a c' hstop hK hr => hp c a c' hstop hK (reads_holding.1 hr)

theorem fail {expected : Expected} : Spells K (Parse.fail expected : Parse α) l :=
  fun _ _ _ _ _ hr => absurd hr reads_fail

/-- One or more phrases with commas between them. -/
theorem commaSeparated (hp : Spells Anywhere p l) (items : α → List Item) (fuel : Nat) :
    Spells K (Parse.commaSeparated p items fuel) (l * (letter (.punct .comma) * l)∗) := by
  induction fuel generalizing K with
  | zero => exact (hp.last fun a => .pure _).known.le (le_mul_of_one_le_right' one_le_kstar)
  | succ fuel ih =>
      refine hp.known.bind fun a => ?_
      have hcomma : Kind.punct .comma ≠ .endOfFile := by simp
      refine le (accept hcomma (ih.holding.last fun _ => .pure _) (.pure _)) ?_
      rw [← mul_assoc, add_comm]
      exact (Language.one_add_self_mul_kstar_eq_kstar _).le

end Spells

/-! ## Words that parsers take -/

/-- In front of `k`, a parser reads the word `w` and stops at the seam. -/
def Takes (p : Parse α) (w k : List Kind) : Prop :=
  ∀ c, c.stop.kind = .endOfFile → c.kinds = w ++ k → ∃ a c', Reads p c a c' ∧ c.Reaches w c'

namespace Takes

variable {w u v k : List Kind} {x y : Kind}

/-- A parser that takes both of two words, each in front of some other one, takes one of them: what
there is to read decides how far it reads. -/
theorem unique (h : Takes p w k) {k' : List Kind} (h' : Takes p v k') (heq : w ++ k = v ++ k') :
    w = v := by
  let c : Cursor := ⟨⟨0, 0⟩, (w ++ k).map fun kind => ⟨kind, "", ⟨0, 0⟩⟩, .endAt 0⟩
  have hkinds : c.kinds = w ++ k := by simp [c, Cursor.kinds, Function.comp_def]
  obtain ⟨a, c₁, hread, hreach⟩ := h c rfl hkinds
  obtain ⟨b, c₂, hread', hreach'⟩ := h' c rfl (hkinds.trans heq)
  have hsame : c₁ = c₂ := by
    have := hread.symm.trans hread'
    rw [Except.ok.injEq, Prod.mk.injEq] at this
    exact this.2
  rw [hsame] at hreach
  exact List.append_cancel_right (hreach.kinds.symm.trans hreach'.kinds)

theorem pure (a : α) : Takes (Pure.pure a) [] k :=
  fun c _ _ => ⟨a, c, .pure a, .refl c⟩

theorem bind (hp : Takes p u (v ++ k)) (hf : ∀ a, Takes (f a) v k) :
    Takes (p >>= f) (u ++ v) k := by
  intro c hstop hkinds
  rw [List.append_assoc] at hkinds
  obtain ⟨a, c₁, ha, hreach⟩ := hp c hstop hkinds
  have hkinds' : c₁.kinds = v ++ k := List.append_cancel_left (hreach.kinds.symm.trans hkinds)
  obtain ⟨b, c', hb, hreach'⟩ := hf a c₁ (by rw [hreach.stop, hstop]) hkinds'
  exact ⟨b, c', ha.bind hb, hreach.trans hreach'⟩

/-- A step that takes one token. -/
theorem cons (hp : Takes p [x] (v ++ k)) (hf : ∀ a, Takes (f a) v k) :
    Takes (p >>= f) (x :: v) k := bind hp hf

/-- A step behind which nothing more is taken. -/
theorem last (hp : Takes p w k) (hf : ∀ a, Takes (f a) [] k) : Takes (p >>= f) w k := by
  have h : Takes (p >>= f) (w ++ []) k := bind hp hf
  rwa [List.append_nil] at h

theorem map {g : α → β} (hp : Takes p w k) : Takes (g <$> p) w k := by
  rw [map_eq_pure_bind]
  exact hp.last fun a => .pure (g a)

/-- A look at the next kind, which is the first of what is there. -/
theorem kind {f : Kind → Parse β} (hx : Kind.first (w ++ k) = x) (h : Takes (f x) w k) :
    Takes (Parse.kind >>= f) w k := by
  intro c hstop hkinds
  obtain ⟨b, c', hb, hreach⟩ := h c hstop hkinds
  refine ⟨b, c', .kind ?_ hb, hreach⟩
  rw [c.kind_next hstop, hkinds, hx]

theorem next {f : Token → Parse β} (hx : Kind.first (w ++ k) = x)
    (h : ∀ t, t.kind = x → Takes (f t) w k) : Takes (Parse.next >>= f) w k := by
  intro c hstop hkinds
  have hnext : c.next.kind = x := by rw [c.kind_next hstop, hkinds, hx]
  obtain ⟨b, c', hb, hreach⟩ := h c.next hnext c hstop hkinds
  exact ⟨b, c', (reads_next.2 ⟨rfl, rfl⟩).bind hb, hreach⟩

theorem kindBehind {f : Kind → Parse β} (hx : Kind.second (w ++ k) = x) (h : Takes (f x) w k) :
    Takes (Parse.kindBehind >>= f) w k := by
  intro c hstop hkinds
  obtain ⟨b, c', hb, hreach⟩ := h c hstop hkinds
  refine ⟨b, c', (reads_kindBehind.2 ⟨?_, rfl⟩).bind hb, hreach⟩
  rw [c.kindBehind_eq, hkinds, hx]

theorem spanFrom {f : Span → Parse β} {first : Span} (h : ∀ span, Takes (f span) w k) :
    Takes (Parse.spanFrom first >>= f) w k := by
  intro c hstop hkinds
  obtain ⟨b, c', hb, hreach⟩ := h (first.hull c.last) c hstop hkinds
  exact ⟨b, c', (reads_spanFrom.2 ⟨rfl, rfl⟩).bind hb, hreach⟩

theorem advance (hne : x ≠ .endOfFile) : Takes Parse.advance [x] k := by
  intro c hstop hkinds
  have hx : c.next.kind = x := by rw [c.kind_next hstop, hkinds]; rfl
  exact ⟨(), c.advance, reads_advance.2 rfl, .advance hstop hx hne⟩

theorem require {expected : Expected} (hne : x ≠ .endOfFile) :
    Takes (Parse.require x expected) [x] k := by
  intro c hstop hkinds
  have hx : c.next.kind = x := by rw [c.kind_next hstop, hkinds]; rfl
  exact ⟨c.next, c.advance, reads_require.2 ⟨hx, rfl, rfl⟩, .advance hstop hx hne⟩

theorem expect {mark : Punct} {place : Place} :
    Takes (Parse.expect mark place) [.punct mark] k := by
  intro c hstop hkinds
  have hx : c.next.kind = .punct mark := by rw [c.kind_next hstop, hkinds]; rfl
  exact ⟨(), c.advance, .expect hx, .advance hstop hx (by simp)⟩

theorem name {role : NameRole} : Takes (Parse.name role) [.identifier] k := by
  intro c hstop hkinds
  have hx : c.next.kind = .identifier := by rw [c.kind_next hstop, hkinds]; rfl
  exact ⟨_, c.advance, reads_name.2 ⟨hx, rfl, rfl⟩, .advance hstop hx (by simp)⟩

theorem acceptThen {f : Bool → Parse β} (hne : x ≠ .endOfFile) (h : Takes (f true) w k) :
    Takes (Parse.accept x >>= f) (x :: w) k := by
  intro c hstop hkinds
  have hx : c.next.kind = x := by rw [c.kind_next hstop, hkinds]; rfl
  have hreach := Cursor.Reaches.advance hstop hx hne
  have hkinds' : c.advance.kinds = w ++ k :=
    List.append_cancel_left (hreach.kinds.symm.trans hkinds)
  obtain ⟨b, c', hb, hreach'⟩ := h c.advance (by rw [hreach.stop, hstop]) hkinds'
  exact ⟨b, c', .accept hx hb, hreach.trans hreach'⟩

theorem refuseThen {f : Bool → Parse β} (hne : Kind.first (w ++ k) ≠ x)
    (h : Takes (f false) w k) : Takes (Parse.accept x >>= f) w k := by
  intro c hstop hkinds
  obtain ⟨b, c', hb, hreach⟩ := h c hstop hkinds
  refine ⟨b, c', .refuse ?_ hb, hreach⟩
  rwa [c.kind_next hstop, hkinds]

theorem accept {yes no : Bool → Parse β} (hne : x ≠ .endOfFile) (h : Takes (yes true) w k) :
    Takes (Parse.accept x >>= fun found => if found then yes found else no found) (x :: w) k :=
  acceptThen hne h

theorem refuse {yes no : Bool → Parse β} (hne : Kind.first (w ++ k) ≠ x)
    (h : Takes (no false) w k) :
    Takes (Parse.accept x >>= fun found => if found then yes found else no found) w k :=
  refuseThen hne h

theorem holding {items : List Item} (hp : Takes p w k) : Takes (Parse.holding items p) w k := by
  intro c hstop hkinds
  obtain ⟨a, c', ha, hreach⟩ := hp c hstop hkinds
  exact ⟨a, c', reads_holding.2 ha, hreach⟩

/-- A token that may be missing in front of what else is taken. -/
theorem acceptOptional {f : Bool → Parse β} (hu : u ∈ letter x + 1) (hne : x ≠ .endOfFile)
    (hfirst : Kind.first (w ++ k) ≠ x) (h : ∀ found, Takes (f found) w k) :
    Takes (Parse.accept x >>= f) (u ++ w) k := by
  rcases hu with hu | rfl
  · rw [mem_letter.1 hu]
    exact acceptThen hne (h true)
  · exact refuseThen hfirst (h false)

/-- What stands behind the first phrase of a list: nothing, or a comma and others. -/
theorem others {yes no : Bool → Parse β} (hw : w ∈ (letter (.punct .comma) * l)∗)
    (hk : Kind.first k ≠ .punct .comma) (hno : Takes (no false) [] k)
    (hyes : ∀ v ∈ l * (letter (.punct .comma) * l)∗, v.length < w.length →
      Takes (yes true) v k) :
    Takes (Parse.accept (.punct .comma) >>= fun found => if found then yes found else no found)
      w k := by
  rcases mem_kstar_iff.1 hw with rfl | ⟨m, hm, v, hv, rfl⟩
  · exact refuse hk hno
  · obtain ⟨u, hu, rfl⟩ := mem_letter_mul.1 hm
    exact accept (by simp) (hyes (u ++ v) (Language.append_mem_mul hu hv) (Nat.lt_succ_self _))

/-- One or more phrases with commas between them. A comma can follow each of them, and none follows
the last one. -/
theorem commaSeparated {F : Kind → Prop} (hcomma : F (.punct .comma)) {n : Nat}
    (hp : ∀ u ∈ l, u.length ≤ n → ∀ k, F (Kind.first k) → Takes p u k) (items : α → List Item)
    {fuel : Nat} (hw : w ∈ l * (letter (.punct .comma) * l)∗) (hlen : w.length ≤ n)
    (hfuel : w.length ≤ fuel) (hF : F (Kind.first k)) (hk : Kind.first k ≠ .punct .comma) :
    Takes (Parse.commaSeparated p items fuel) w k := by
  induction fuel generalizing w with
  | zero =>
      obtain ⟨u, hu, v, -, rfl⟩ := Language.mem_mul.1 hw
      obtain ⟨rfl, rfl⟩ : u = [] ∧ v = [] :=
        List.append_eq_nil_iff.1 (List.eq_nil_of_length_eq_zero (Nat.le_zero.1 hfuel))
      exact (hp [] hu (Nat.zero_le n) k hF).last fun a => .pure [a]
  | succ fuel ih =>
      obtain ⟨u, hu, v, hv, rfl⟩ := Language.mem_mul.1 hw
      rw [List.length_append] at hlen hfuel
      have hfollow : F (Kind.first (v ++ k)) := by
        rcases Kind.first_others hv k with h | h
        · rwa [h]
        · rwa [h]
      refine bind (hp u hu (by omega) _ hfollow) fun a => ?_
      refine others hv hk (.pure [a]) fun v' hv' hlt => ?_
      exact (ih hv' (by omega) (by omega)).holding.last fun _ => .pure _

end Takes

end Parse

end Cmm
