import Mathlib.Data.List.Chain
import Cmm.Proofs.Prefix.Persists

/-!
# The way of the cursor

* `Parse.Walks` — the places at which the cursor stands while a parser runs. Only the steps of a
  parser and what is put together from them walk, and of the steps only `advance` moves the cursor.
* `Parse.Walks.isChain`, `Parse.Walks.keeps` — so the cursor moves on by one token or not at all,
  and what `advance` keeps holds on the whole way.
* `Parse.Halts` — where few enough tokens are left, a parser walks a way that ends, and another one
  with more fuel does the same. One lemma per combinator says how a parser halts by what its steps
  do.
-/

set_option autoImplicit false

namespace Cmm

namespace Parse

variable {α β : Type} {c c' : Cursor} {places : List Cursor}

/-- The places at which the cursor stands while a parser runs, in order and the first one included.
Where a step is interrupted, the way ends. -/
inductive Walks : {α : Type} → Parse α → Cursor → List Cursor → Prop where
  | pure {α : Type} (a : α) (c : Cursor) : Walks (Pure.pure a) c [c]
  | next (c : Cursor) : Walks Parse.next c [c]
  | kind (c : Cursor) : Walks Parse.kind c [c]
  | kindBehind (c : Cursor) : Walks Parse.kindBehind c [c]
  | spanFrom (first : Span) (c : Cursor) : Walks (Parse.spanFrom first) c [c]
  | fail {α : Type} (expected : Expected) (c : Cursor) :
      Walks (Parse.fail expected : Parse α) c [c]
  | advance (c : Cursor) : Walks Parse.advance c [c, c.advance]
  | holding {α : Type} {p : Parse α} {c : Cursor} {places : List Cursor} (items : List Item)
      (way : Walks p c places) : Walks (Parse.holding items p) c places
  | bind {α β : Type} {p : Parse α} {f : α → Parse β} {c c₁ : Cursor} {a : α}
      {places later : List Cursor} (first : Walks p c places) (read : Reads p c a c₁)
      (second : Walks (f a) c₁ later) : Walks (p >>= f) c (places ++ later)
  | interrupted {α β : Type} {p : Parse α} {f : α → Parse β} {c : Cursor} {i : Interruption}
      {places : List Cursor} (way : Walks p c places) (stopped : p c = .error i) :
      Walks (p >>= f) c places

namespace Walks

variable {p : Parse α}

/-- The way begins at the first place, and what is read ends at the last one. -/
theorem ends (way : Walks p c places) :
    places.head? = some c ∧ ∀ a c', Reads p c a c' → places.getLast? = some c' := by
  induction way with
  | pure b c | next c | kind c | kindBehind c | spanFrom first c =>
      refine ⟨rfl, fun a c' hr => ?_⟩
      cases hr
      rfl
  | fail expected c => exact ⟨rfl, fun a c' hr => absurd hr reads_fail⟩
  | advance c =>
      refine ⟨rfl, fun a c' hr => ?_⟩
      rw [reads_advance.1 hr]
      rfl
  | holding items way ih => exact ⟨ih.1, fun a c' hr => ih.2 a c' (reads_holding.1 hr)⟩
  | @bind α β p f c c₁ a places later first read second ih ih' =>
      refine ⟨by simp [List.head?_append, ih.1], fun b c' hr => ?_⟩
      obtain ⟨a', c₁', hread, hr⟩ := reads_bind.1 hr
      cases read.symm.trans hread
      simp [List.getLast?_append, ih'.2 b c' hr]
  | interrupted way stopped ih =>
      refine ⟨ih.1, fun b c' hr => ?_⟩
      obtain ⟨a, c₁, hread, -⟩ := reads_bind.1 hr
      cases stopped.symm.trans hread

/-- From one place to the next, the cursor moves on by one token or not at all. -/
theorem isChain (way : Walks p c places) :
    places.IsChain fun before after => after = before ∨ after = before.advance := by
  induction way with
  | pure b c | next c | kind c | kindBehind c | spanFrom first c | fail expected c =>
      exact .singleton c
  | advance c => exact List.isChain_pair.2 (.inr rfl)
  | holding items way ih => exact ih
  | @bind α β p f c c₁ a places later first read second ih ih' =>
      refine ih.append ih' fun before hbefore after hafter => .inl ?_
      have hseam : some before = some after := calc
        some before = places.getLast? := hbefore.symm
        _ = some c₁ := first.ends.2 a c₁ read
        _ = later.head? := second.ends.1.symm
        _ = some after := hafter
      exact (Option.some.inj hseam).symm
  | interrupted way stopped ih => exact ih

/-- What `advance` keeps holds on the whole way, and where it leads. -/
theorem keeps {P : Cursor → Prop} (step : ∀ c, P c → P c.advance) (way : Walks p c places)
    (h : P c) : (∀ place ∈ places, P place) ∧ ∀ a c', Reads p c a c' → P c' := by
  have hall : ∀ place ∈ places, P place := by
    refine way.isChain.induction P places (fun before after hmove hbefore => ?_) fun hne => ?_
    · rcases hmove with rfl | rfl
      · exact hbefore
      · exact step before hbefore
    · have hhead : some (places.head hne) = some c := by
        rw [← List.head?_eq_some_head, way.ends.1]
      rw [Option.some.inj hhead]
      exact h
  exact ⟨hall, fun a c' hr => hall c' (List.mem_of_getLast? (way.ends.2 a c' hr))⟩

end Walks

/-! ## Parsers that halt -/

variable {n m d e : Nat} {p q : Parse α} {f g : α → Parse β}

/-- Where at most `n` tokens are left, `p` walks a way, reads `d` tokens of them or all there are,
and `q` does the same, whether it is read or interrupted. -/
def Halts (n d : Nat) (p q : Parse α) : Prop :=
  ∀ c, c.stop.kind = .endOfFile → c.rest.length ≤ n →
    (∃ places, Walks p c places) ∧ q c = p c ∧
      ∀ a c', Reads p c a c' → c'.rest.length ≤ c.rest.length - d ∧ c'.stop = c.stop

namespace Halts

theorem mono (h : Halts n d p q) (hm : m ≤ n) : Halts m d p q :=
  fun c hstop hlen => h c hstop (Nat.le_trans hlen hm)

theorem weaken (h : Halts n d p q) (he : e ≤ d) : Halts n e p q := by
  intro c hstop hlen
  obtain ⟨hway, hsame, hless⟩ := h c hstop hlen
  refine ⟨hway, hsame, fun a c' hr => ?_⟩
  obtain ⟨hshort, hend⟩ := hless a c' hr
  exact ⟨by omega, hend⟩

/-- How many tokens are read often does not matter. -/
theorem loose (h : Halts n d p q) : Halts n 0 p q := h.weaken (Nat.zero_le d)

/-- A step that stays where it is. -/
theorem still (hway : ∀ c, Walks p c [c]) (hread : ∀ c a c', Reads p c a c' → c' = c) :
    Halts n 0 p p := by
  intro c hstop hlen
  refine ⟨⟨[c], hway c⟩, rfl, fun a c' hr => ?_⟩
  rw [hread c a c' hr]
  exact ⟨Nat.le_refl _, rfl⟩

theorem pure (a : α) : Halts n 0 (Pure.pure a) (Pure.pure a) :=
  still (.pure a) fun _ _ _ hr => (reads_pure.1 hr).2

theorem next : Halts n 0 Parse.next Parse.next :=
  still .next fun _ _ _ hr => (reads_next.1 hr).2

theorem kind : Halts n 0 Parse.kind Parse.kind :=
  still .kind fun _ _ _ hr => (reads_kind.1 hr).2

theorem kindBehind : Halts n 0 Parse.kindBehind Parse.kindBehind :=
  still .kindBehind fun _ _ _ hr => (reads_kindBehind.1 hr).2

theorem spanFrom {first : Span} : Halts n 0 (Parse.spanFrom first) (Parse.spanFrom first) :=
  still (.spanFrom first) fun _ _ _ hr => (reads_spanFrom.1 hr).2

theorem fail {expected : Expected} :
    Halts n d (Parse.fail expected : Parse α) (Parse.fail expected) :=
  fun c _ _ => ⟨⟨[c], .fail expected c⟩, rfl, fun _ _ hr => absurd hr reads_fail⟩

theorem advance : Halts n 1 Parse.advance Parse.advance := by
  intro c hstop hlen
  refine ⟨⟨_, .advance c⟩, rfl, fun u c' hr => ?_⟩
  rw [reads_advance.1 hr]
  exact ⟨c.length_advance.le, c.stop_advance⟩

theorem holding {items : List Item} (h : Halts n d p q) :
    Halts n d (Parse.holding items p) (Parse.holding items q) := by
  intro c hstop hlen
  obtain ⟨⟨places, hway⟩, hsame, hless⟩ := h c hstop hlen
  refine ⟨⟨places, hway.holding items⟩, ?_, fun a c' hr => hless a c' (reads_holding.1 hr)⟩
  rw [Parse.holding, Parse.holding, hsame]

/-- A parser that reads `d` tokens leaves so many less to the next one. -/
theorem andThen (hp : Halts n d p q) (hf : ∀ a, Halts (n - d) (e - d) (f a) (g a)) :
    Halts n e (p >>= f) (q >>= g) := by
  intro c hstop hlen
  obtain ⟨⟨places, hway⟩, hsame, hless⟩ := hp c hstop hlen
  cases hrun : p c with
  | error i =>
      refine ⟨⟨places, hway.interrupted hrun⟩, ?_, fun b c' hr => ?_⟩
      · rw [bind_apply, bind_apply, hsame, hrun]
        rfl
      · obtain ⟨a, c₁, ha, -⟩ := reads_bind.1 hr
        cases hrun.symm.trans ha
  | ok r =>
      obtain ⟨a, c₁⟩ := r
      obtain ⟨hshort, hend⟩ := hless a c₁ hrun
      have hstop₁ : c₁.stop.kind = .endOfFile := by rw [hend, hstop]
      obtain ⟨⟨later, hway'⟩, hsame', hless'⟩ := hf a c₁ hstop₁ (by omega)
      refine ⟨⟨places ++ later, hway.bind hrun hway'⟩, ?_, fun b c' hr => ?_⟩
      · rw [bind_apply, bind_apply, hsame, hrun]
        exact hsame'
      · obtain ⟨a', c₁', ha, hb⟩ := reads_bind.1 hr
        cases hrun.symm.trans ha
        obtain ⟨hshort', hend'⟩ := hless' b c' hb
        exact ⟨by omega, hend'.trans hend⟩

theorem bind (hp : Halts n 0 p q) (hf : ∀ a, Halts n e (f a) (g a)) :
    Halts n e (p >>= f) (q >>= g) := hp.andThen hf

theorem map (hp : Halts n d p q) (h : α → β) : Halts n d (h <$> p) (h <$> q) := by
  rw [map_eq_pure_bind, map_eq_pure_bind]
  exact hp.andThen fun a => (pure (h a)).weaken (by omega)

/-- Two ways to go on, with and without a token of some kind. -/
theorem accept {k : Kind} {f g : Bool → Parse β} (hyes : Halts (n - 1) (e - 1) (f true) (g true))
    (hno : Halts n e (f false) (g false)) :
    Halts n e (Parse.accept k >>= f) (Parse.accept k >>= g) := by
  unfold Parse.accept
  rw [bind_assoc, bind_assoc]
  refine kind.bind fun k' => ?_
  split
  · simp only [bind_assoc, pure_bind]
    exact advance.andThen fun _ => hyes
  · simpa only [pure_bind] using hno

/-- Whether there is such a token. -/
theorem found {k : Kind} : Halts n 0 (Parse.accept k) (Parse.accept k) := by
  have hreturn : Halts n 0 (Parse.accept k >>= Pure.pure) (Parse.accept k >>= Pure.pure) :=
    accept (pure true) (pure false)
  rwa [bind_pure] at hreturn

theorem require {k : Kind} {expected : Expected} :
    Halts n 1 (Parse.require k expected) (Parse.require k expected) := by
  refine next.bind fun t => ?_
  split
  · exact advance.andThen fun _ => pure t
  · exact fail

theorem expect {mark : Punct} {place : Place} :
    Halts n 1 (Parse.expect mark place) (Parse.expect mark place) :=
  require.andThen fun _ => pure ()

theorem name {role : NameRole} : Halts n 1 (Parse.name role) (Parse.name role) :=
  require.andThen fun t => pure (t.lexeme, t.span)

/-- The mark at the end of a phrase. -/
theorem close {mark : Punct} {place : Place} {items : List Item} (b : β) :
    Halts n 1 (do Parse.holding items (Parse.expect mark place); return b)
      (do Parse.holding items (Parse.expect mark place); return b) :=
  expect.holding.andThen fun _ => pure b

/-! Where no token is left, fuel that is used up is not missed. -/

theorem kindAtEnd {f : Kind → Parse α} (h : Halts 0 d p (f .endOfFile)) :
    Halts 0 d p (Parse.kind >>= f) := by
  intro c hstop hlen
  obtain ⟨hway, hsame, hless⟩ := h c hstop hlen
  have hnext : c.next.kind = .endOfFile := by
    rw [Cursor.next, List.eq_nil_of_length_eq_zero (Nat.le_zero.1 hlen)]
    exact hstop
  refine ⟨hway, ?_, hless⟩
  rw [← hsame, ← hnext]
  rfl

theorem nextAtEnd {f : Token → Parse α} (h : ∀ t, t.kind = .endOfFile → Halts 0 d p (f t)) :
    Halts 0 d p (Parse.next >>= f) := by
  intro c hstop hlen
  have hnext : c.next = c.stop := by
    rw [Cursor.next, List.eq_nil_of_length_eq_zero (Nat.le_zero.1 hlen)]
    rfl
  obtain ⟨hway, hsame, hless⟩ := h c.stop hstop c hstop hlen
  refine ⟨hway, ?_, hless⟩
  rw [← hsame, ← hnext]
  rfl

theorem acceptAtEnd {k : Kind} {f : Bool → Parse α} (hk : k ≠ .endOfFile)
    (h : Halts 0 d p (f false)) : Halts 0 d p (Parse.accept k >>= f) := by
  unfold Parse.accept
  rw [bind_assoc]
  refine kindAtEnd ?_
  rw [if_neg (Ne.symm hk), pure_bind]
  exact h

theorem commaSeparated (hp : Halts n 0 p q) (items : α → List Item) {fuel fuel' : Nat}
    (hn : n ≤ fuel) (hfuel : fuel ≤ fuel') :
    Halts n 0 (Parse.commaSeparated p items fuel) (Parse.commaSeparated q items fuel') := by
  induction fuel generalizing n fuel' with
  | zero =>
      obtain rfl : n = 0 := by omega
      cases fuel' with
      | zero => exact hp.bind fun a => pure [a]
      | succ fuel' => exact hp.bind fun a => acceptAtEnd (by simp) (pure [a])
  | succ fuel ih =>
      obtain ⟨fuel', rfl⟩ : ∃ k, fuel' = k + 1 := ⟨fuel' - 1, by omega⟩
      have hless : Halts (n - 1) 0 p q := hp.mono (Nat.sub_le n 1)
      refine hp.bind fun a => accept ?_ (pure [a])
      exact (ih hless (by omega) (by omega)).holding.bind fun others => pure (a :: others)

end Halts

end Parse

end Cmm
