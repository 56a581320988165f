import Cmm.Proofs.Parse

/-!
# Reading with more tokens behind

A parser that stops short of the end of the tokens has not seen the end, so it reads the same where
more tokens follow. A parser that ends with a mark of its own need not stop short.

* `Cursor.extend` — the same place with more tokens behind it.
* `Parse.Persists` — what one parser reads short of the end, another reads where more follows.
* `Parse.Closes` — what one parser reads at all, another reads where more follows.
* One lemma per combinator says how a parser persists or closes by what its steps do.
-/

set_option autoImplicit false

namespace Cmm

namespace Cursor

variable {c : Cursor} {more : List Token} {stop : Token}

/-- The same place where more tokens follow, up to another end. -/
def extend (c : Cursor) (more : List Token) (stop : Token) : Cursor :=
  ⟨c.last, c.rest ++ more, stop⟩

theorem next_extend (h : 0 < c.rest.length) : (c.extend more stop).next = c.next := by
  unfold next extend
  cases hrest : c.rest with
  | nil => simp [hrest] at h
  | cons t rest => rfl

theorem kindBehind_extend (h : 1 < c.rest.length) :
    (c.extend more stop).kindBehind = c.kindBehind := by
  unfold kindBehind extend
  match hrest : c.rest with
  | [] | [_] => simp [hrest] at h
  | _ :: _ :: _ => rfl

theorem advance_extend (h : 0 < c.rest.length) :
    (c.extend more stop).advance = c.advance.extend more stop := by
  unfold advance extend
  cases hrest : c.rest with
  | nil => simp [hrest] at h
  | cons t rest => rfl

theorem length_advance (c : Cursor) : c.advance.rest.length = c.rest.length - 1 := by
  unfold advance
  cases hrest : c.rest <;> simp [hrest]

theorem stop_advance (c : Cursor) : c.advance.stop = c.stop := by
  unfold advance
  cases c.rest <;> rfl

/-- In front of the last token, the end stands behind it. -/
theorem length_of_kindBehind (h : c.kindBehind ≠ .endOfFile) : 1 < c.rest.length := by
  unfold kindBehind at h
  match hrest : c.rest with
  | [] | [_] => simp [hrest] at h
  | _ :: _ :: _ => simp

end Cursor

namespace Parse

variable {α β : Type} {n m d e : Nat} {p q : Parse α} {f g : α → Parse β}

/-- Where at most `n` tokens are left, `p` reads `d` of them or all there are; and what it reads
short of the end, `q` reads from the same place where more follows. -/
def Persists (n d : Nat) (p q : Parse α) : Prop :=
  ∀ c a c', c.stop.kind = .endOfFile → c.rest.length ≤ n → Reads p c a c' →
    c'.rest.length ≤ c.rest.length - d ∧ c'.stop = c.stop ∧
      (0 < c'.rest.length → ∀ more stop, Reads q (c.extend more stop) a (c'.extend more stop))

namespace Persists

theorem mono (h : Persists n d p q) (hm : m ≤ n) : Persists m d p q :=
  fun c a c' hstop hlen hr => h c a c' hstop (Nat.le_trans hlen hm) hr

theorem weaken (h : Persists n d p q) (he : e ≤ d) : Persists n e p q := by
  intro c a c' hstop hlen hr
  obtain ⟨hless, hend, hagain⟩ := h c a c' hstop hlen hr
  exact ⟨by omega, hend, hagain⟩

/-- How many tokens are read often does not matter. -/
theorem loose (h : Persists n d p q) : Persists n 0 p q := h.weaken (Nat.zero_le d)

/-- Where no token is left, nothing is said of the other parser. -/
theorem atEnd (h : Persists 0 d p q) (q' : Parse α) : Persists 0 d p q' := by
  intro c a c' hstop hlen hr
  obtain ⟨hless, hend, -⟩ := h c a c' hstop hlen hr
  exact ⟨hless, hend, fun hpos => by omega⟩

theorem pure (a : α) : Persists n 0 (Pure.pure a) (Pure.pure a) := by
  intro c b c' hstop hlen hr
  obtain ⟨rfl, rfl⟩ := reads_pure.1 hr
  exact ⟨Nat.le_refl _, rfl, fun _ _ _ => .pure _⟩

theorem fail {expected : Expected} : Persists n d (Parse.fail expected) q :=
  fun _ _ _ _ _ hr => absurd hr reads_fail

theorem holding {items items' : List Item} (h : Persists n d p q) :
    Persists n d (Parse.holding items p) (Parse.holding items' q) := by
  intro c a c' hstop hlen hr
  obtain ⟨hless, hend, hagain⟩ := h c a c' hstop hlen (reads_holding.1 hr)
  exact ⟨hless, hend, fun hpos more stop => reads_holding.2 (hagain hpos more stop)⟩

/-- A parser that reads `d` tokens leaves so many less to the next one. -/
theorem andThen (hp : Persists n d p q) (hf : ∀ a, Persists (n - d) (e - d) (f a) (g a)) :
    Persists n e (p >>= f) (q >>= g) := by
  intro c b c' hstop hlen hr
  obtain ⟨a, c₁, ha, hb⟩ := reads_bind.1 hr
  obtain ⟨hless, hend, hagain⟩ := hp c a c₁ hstop hlen ha
  have hstop₁ : c₁.stop.kind = .endOfFile := by rw [hend, hstop]
  obtain ⟨hless', hend', hagain'⟩ := hf a c₁ b c' hstop₁ (by omega) hb
  refine ⟨by omega, hend'.trans hend, fun hpos more stop => ?_⟩
  have hfirst := hagain (by omega) more stop
  exact hfirst.bind (hagain' hpos more stop)

theorem bind (hp : Persists n 0 p q) (hf : ∀ a, Persists n e (f a) (g a)) :
    Persists n e (p >>= f) (q >>= g) := hp.andThen hf

theorem map (hp : Persists n d p q) (h : α → β) : Persists n d (h <$> p) (h <$> q) := by
  rw [map_eq_pure_bind, map_eq_pure_bind]
  exact hp.andThen fun a => (pure (h a)).weaken (by omega)

/-! Steps of a parser -/

theorem next : Persists n 0 Parse.next Parse.next := by
  intro c t c' hstop hlen hr
  obtain ⟨rfl, rfl⟩ := reads_next.1 hr
  exact ⟨Nat.le_refl _, rfl, fun hpos _ _ => reads_next.2 ⟨(Cursor.next_extend hpos).symm, rfl⟩⟩

theorem kind : Persists n 0 Parse.kind Parse.kind := by
  intro c k c' hstop hlen hr
  obtain ⟨rfl, rfl⟩ := reads_kind.1 hr
  refine ⟨Nat.le_refl _, rfl, fun hpos more stop => reads_kind.2 ⟨?_, rfl⟩⟩
  rw [Cursor.next_extend hpos]

theorem spanFrom {first : Span} : Persists n 0 (Parse.spanFrom first) (Parse.spanFrom first) := by
  intro c span c' hstop hlen hr
  obtain ⟨rfl, rfl⟩ := reads_spanFrom.1 hr
  exact ⟨Nat.le_refl _, rfl, fun _ _ _ => reads_spanFrom.2 ⟨rfl, rfl⟩⟩

/-- Looking two tokens ahead may look at the end. But what then reads one token reads all. -/
theorem kindBehind {f g : Kind → Parse β} (hf : ∀ k, Persists n 1 (f k) (g k)) :
    Persists n 1 (Parse.kindBehind >>= f) (Parse.kindBehind >>= g) := by
  intro c b c' hstop hlen hr
  obtain ⟨k, c₁, hk, hb⟩ := reads_bind.1 hr
  obtain ⟨rfl, rfl⟩ := reads_kindBehind.1 hk
  obtain ⟨hless, hend, hagain⟩ := hf _ c₁ b c' hstop hlen hb
  refine ⟨hless, hend, fun hpos more stop => ?_⟩
  have hsame : (c₁.extend more stop).kindBehind = c₁.kindBehind :=
    Cursor.kindBehind_extend (by omega)
  exact (reads_kindBehind.2 ⟨hsame.symm, rfl⟩).bind (hagain hpos more stop)

theorem advance : Persists n 1 Parse.advance Parse.advance := by
  intro c u c' hstop hlen hr
  cases reads_advance.1 hr
  have hlength := c.length_advance
  refine ⟨by omega, c.stop_advance, fun hpos more stop => reads_advance.2 ?_⟩
  exact (Cursor.advance_extend (by omega)).symm

/-- Two ways to go on, with and without a token of some kind. -/
theorem accept {k : Kind} {f g : Bool → Parse β} (hyes : Persists (n - 1) (e - 1) (f true) (g true))
    (hno : Persists n e (f false) (g false)) :
    Persists n e (Parse.accept k >>= f) (Parse.accept k >>= g) := by
  unfold Parse.accept
  rw [bind_assoc, bind_assoc]
  refine kind.bind fun k' => ?_
  split
  · simp only [bind_assoc, pure_bind]
    exact advance.andThen fun _ => hyes
  · simpa only [pure_bind] using hno

/-- Whether there is such a token. -/
theorem found {k : Kind} : Persists n 0 (Parse.accept k) (Parse.accept k) := by
  have hreturn : Persists n 0 (Parse.accept k >>= Pure.pure) (Parse.accept k >>= Pure.pure) :=
    accept (pure true) (pure false)
  rwa [bind_pure] at hreturn

theorem require {k : Kind} {expected : Expected} :
    Persists n 1 (Parse.require k expected) (Parse.require k expected) := by
  refine next.bind fun t => ?_
  split
  · exact advance.andThen fun _ => pure t
  · exact fail

theorem expect {mark : Punct} {place : Place} :
    Persists n 1 (Parse.expect mark place) (Parse.expect mark place) :=
  require.andThen fun _ => pure ()

theorem name {role : NameRole} : Persists n 1 (Parse.name role) (Parse.name role) :=
  require.andThen fun t => pure (t.lexeme, t.span)

theorem commaSeparated (hp : Persists n 0 p q) (items items' : α → List Item) {fuel fuel' : Nat}
    (hn : n ≤ fuel) (hfuel : fuel ≤ fuel') :
    Persists n 0 (Parse.commaSeparated p items fuel) (Parse.commaSeparated q items' fuel') := by
  induction fuel generalizing n fuel' with
  | zero =>
      obtain rfl : n = 0 := by omega
      have hone : Persists 0 0 (Parse.commaSeparated p items 0) (Parse.commaSeparated q items' 0) :=
        hp.bind fun a => pure [a]
      exact hone.atEnd _
  | succ fuel ih =>
      obtain ⟨fuel', rfl⟩ : ∃ k, fuel' = k + 1 := ⟨fuel' - 1, by omega⟩
      have hless : Persists (n - 1) 0 p q := hp.mono (Nat.sub_le n 1)
      refine hp.bind fun a => accept ?_ (pure [a])
      exact (ih hless (by omega) (by omega)).holding.bind fun others => pure (a :: others)

end Persists

/-- What `p` reads, and that is one token at least, `q` reads from the same place where more
follows. -/
def Closes (n : Nat) (p q : Parse α) : Prop :=
  ∀ c a c', c.stop.kind = .endOfFile → c.rest.length ≤ n → Reads p c a c' →
    c'.rest.length < c.rest.length ∧ c'.stop = c.stop ∧
      ∀ more stop, Reads q (c.extend more stop) a (c'.extend more stop)

namespace Closes

theorem persists (h : Closes n p q) : Persists n 1 p q := by
  intro c a c' hstop hlen hr
  obtain ⟨hless, hend, hagain⟩ := h c a c' hstop hlen hr
  exact ⟨by omega, hend, fun _ => hagain⟩

theorem holding {items items' : List Item} (h : Closes n p q) :
    Closes n (Parse.holding items p) (Parse.holding items' q) := by
  intro c a c' hstop hlen hr
  obtain ⟨hless, hend, hagain⟩ := h c a c' hstop hlen (reads_holding.1 hr)
  exact ⟨hless, hend, fun more stop => reads_holding.2 (hagain more stop)⟩

theorem fail {expected : Expected} : Closes n (Parse.fail expected) q :=
  fun _ _ _ _ _ hr => absurd hr reads_fail

/-- What stands before a closed phrase stops short of the end. -/
theorem after (hp : Persists n d p q) (hf : ∀ a, Closes (n - d) (f a) (g a)) :
    Closes n (p >>= f) (q >>= g) := by
  intro c b c' hstop hlen hr
  obtain ⟨a, c₁, ha, hb⟩ := reads_bind.1 hr
  obtain ⟨hless, hend, hagain⟩ := hp c a c₁ hstop hlen ha
  have hstop₁ : c₁.stop.kind = .endOfFile := by rw [hend, hstop]
  obtain ⟨hless', hend', hagain'⟩ := hf a c₁ b c' hstop₁ (by omega) hb
  refine ⟨by omega, hend'.trans hend, fun more stop => ?_⟩
  have hfirst := hagain (by omega) more stop
  exact hfirst.bind (hagain' more stop)

/-- Nothing is read behind a closed phrase. -/
theorem andReturn (hp : Closes n p q) (h : α → β) :
    Closes n (p >>= fun a => pure (h a)) (q >>= fun a => pure (h a)) := by
  intro c b c' hstop hlen hr
  obtain ⟨a, c₁, ha, hb⟩ := reads_bind.1 hr
  obtain ⟨rfl, rfl⟩ := reads_pure.1 hb
  obtain ⟨hless, hend, hagain⟩ := hp c a _ hstop hlen ha
  refine ⟨hless, hend, fun more stop => ?_⟩
  exact .bind (hagain more stop) (.pure _)

/-- The mark at the end of a phrase. -/
theorem expect {mark : Punct} {place : Place} :
    Closes n (Parse.expect mark place) (Parse.expect mark place) := by
  intro c u c' hstop hlen hr
  obtain ⟨hk, rfl⟩ := reads_expect.1 hr
  have hpos : 0 < c.rest.length := by
    rw [(Cursor.rest_eq hstop (by simp [hk])).1]
    exact Nat.zero_lt_succ _
  have hlength := c.length_advance
  refine ⟨by omega, c.stop_advance, fun more stop => reads_expect.2 ⟨?_, ?_⟩⟩
  · rw [Cursor.next_extend hpos, hk]
  · exact (Cursor.advance_extend hpos).symm

theorem close {mark : Punct} {place : Place} {items items' : List Item} (b : β) :
    Closes n (do Parse.holding items (Parse.expect mark place); return b)
      (do Parse.holding items' (Parse.expect mark place); return b) :=
  expect.holding.andReturn fun _ => b

end Closes

end Parse

end Cmm
