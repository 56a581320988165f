import Cmm.Cursor

/-!
# What the combinators of a parser read

* `Cursor.rest_eq` — in front of the end, a cursor stands at a token of the program.
* `Parse.Reads` — a parser reads a value from one place up to another. One lemma per combinator says
  when it does; what a combinator holds back for an interruption plays no part.
* `Parse.Yields` — whatever a parser reads has a property.
-/

set_option autoImplicit false

namespace Cmm

/-- In front of the end, the token at the cursor is the first that is left. -/
theorem Cursor.rest_eq {c : Cursor} (hstop : c.stop.kind = .endOfFile)
    (hne : c.next.kind ≠ .endOfFile) :
    c.rest = c.next :: c.advance.rest ∧ c.advance.stop = c.stop := by
  unfold next advance at *
  cases hrest : c.rest with
  | nil =>
      rw [hrest] at hne
      exact absurd hstop hne
  | cons t rest => exact ⟨rfl, rfl⟩

namespace Parse

variable {α β : Type} {c c' : Cursor}

/-- From the place `c` a parser reads `a` up to `c'`. -/
def Reads (p : Parse α) (c : Cursor) (a : α) (c' : Cursor) : Prop := p c = .ok (a, c')

theorem reads_pure {a b : α} : Reads (pure b) c a c' ↔ a = b ∧ c' = c := by
  have : (pure b : Parse α) c = .ok (b, c) := rfl
  rw [Reads, this, Except.ok.injEq, Prod.mk.injEq, eq_comm, @eq_comm _ c]

/-- What a parser does from a place, another one goes on with. -/
theorem bind_apply (p : Parse α) (f : α → Parse β) (c : Cursor) :
    (p >>= f) c = (p c).bind fun r => f r.1 r.2 := rfl

theorem reads_bind {p : Parse α} {f : α → Parse β} {b : β} :
    Reads (p >>= f) c b c' ↔ ∃ a c₁, Reads p c a c₁ ∧ Reads (f a) c₁ b c' := by
  unfold Reads
  rw [bind_apply]
  cases h : p c with
  | error i => simp [Except.bind]
  | ok r =>
      constructor
      · intro hb
        exact ⟨r.1, r.2, rfl, hb⟩
      · rintro ⟨a, c₁, hr, hb⟩
        rw [Except.ok.injEq] at hr
        rw [hr]
        exact hb

theorem reads_map {p : Parse α} {f : α → β} {b : β} :
    Reads (f <$> p) c b c' ↔ ∃ a, Reads p c a c' ∧ b = f a := by
  rw [map_eq_pure_bind, reads_bind]
  constructor
  · rintro ⟨a, c₁, hp, hb⟩
    obtain ⟨rfl, rfl⟩ := reads_pure.1 hb
    exact ⟨a, hp, rfl⟩
  · rintro ⟨a, hp, rfl⟩
    exact ⟨a, c', hp, reads_pure.2 ⟨rfl, rfl⟩⟩

theorem reads_next {t : Token} : Reads next c t c' ↔ t = c.next ∧ c' = c := by
  have : next c = .ok (c.next, c) := rfl
  rw [Reads, this, Except.ok.injEq, Prod.mk.injEq, eq_comm, @eq_comm _ c]

theorem reads_kind {k : Kind} : Reads kind c k c' ↔ k = c.next.kind ∧ c' = c := by
  have : kind c = .ok (c.next.kind, c) := rfl
  rw [Reads, this, Except.ok.injEq, Prod.mk.injEq, eq_comm, @eq_comm _ c]

theorem reads_kindBehind {k : Kind} : Reads kindBehind c k c' ↔ k = c.kindBehind ∧ c' = c := by
  have : kindBehind c = .ok (c.kindBehind, c) := rfl
  rw [Reads, this, Except.ok.injEq, Prod.mk.injEq, eq_comm, @eq_comm _ c]

theorem reads_advance {u : Unit} : Reads advance c u c' ↔ c' = c.advance := by
  have : advance c = .ok ((), c.advance) := rfl
  rw [Reads, this, Except.ok.injEq, Prod.mk.injEq, @eq_comm _ c']
  exact and_iff_right rfl

theorem reads_spanFrom {first span : Span} :
    Reads (spanFrom first) c span c' ↔ span = first.hull c.last ∧ c' = c := by
  have : spanFrom first c = .ok (first.hull c.last, c) := rfl
  rw [Reads, this, Except.ok.injEq, Prod.mk.injEq, eq_comm, @eq_comm _ c]

namespace Reads

/-- Steps are read one behind the other. -/
theorem bind {p : Parse α} {f : α → Parse β} {a : α} {b : β} {c₁ : Cursor} (hp : Reads p c a c₁)
    (hf : Reads (f a) c₁ b c') : Reads (p >>= f) c b c' := reads_bind.2 ⟨a, c₁, hp, hf⟩

/-- A look at the next kind takes nothing. -/
theorem kind {f : Kind → Parse β} {k : Kind} {b : β} (hk : c.next.kind = k)
    (hf : Reads (f k) c b c') : Reads (Parse.kind >>= f) c b c' :=
  bind (reads_kind.2 ⟨hk.symm, rfl⟩) hf

theorem advance : Reads Parse.advance c () c.advance := reads_advance.2 rfl

theorem pure (a : α) : Reads (Pure.pure a) c a c := reads_pure.2 ⟨rfl, rfl⟩

end Reads

theorem reads_fail {expected : Expected} {a : α} : ¬ Reads (fail expected) c a c' := by
  intro h
  cases h

theorem reads_holding {items : List Item} {p : Parse α} {a : α} :
    Reads (holding items p) c a c' ↔ Reads p c a c' := by
  unfold Reads holding
  cases p c <;> simp

theorem reads_accept {k : Kind} {b : Bool} : Reads (accept k) c b c' ↔
    c.next.kind = k ∧ b = true ∧ c' = c.advance ∨ c.next.kind ≠ k ∧ b = false ∧ c' = c := by
  unfold accept
  rw [reads_bind]
  constructor
  · rintro ⟨k', c₁, hk, hb⟩
    obtain ⟨rfl, rfl⟩ := reads_kind.1 hk
    split at hb
    · rename_i heq
      obtain ⟨_, c₂, ha, hb⟩ := reads_bind.1 hb
      rw [reads_advance.1 ha] at hb
      exact .inl ⟨heq, reads_pure.1 hb⟩
    · rename_i hne
      exact .inr ⟨hne, reads_pure.1 hb⟩
  · rintro (⟨heq, rfl, rfl⟩ | ⟨hne, rfl, rfl⟩)
    · refine ⟨_, _, reads_kind.2 ⟨rfl, rfl⟩, ?_⟩
      rw [if_pos heq]
      exact .bind .advance (.pure _)
    · refine ⟨_, _, reads_kind.2 ⟨rfl, rfl⟩, ?_⟩
      rw [if_neg hne]
      exact .pure _

theorem reads_require {k : Kind} {expected : Expected} {t : Token} :
    Reads (require k expected) c t c' ↔ c.next.kind = k ∧ t = c.next ∧ c' = c.advance := by
  unfold require
  rw [reads_bind]
  constructor
  · rintro ⟨t', c₁, ht, hb⟩
    obtain ⟨rfl, rfl⟩ := reads_next.1 ht
    split at hb
    · rename_i heq
      obtain ⟨_, c₂, ha, hb⟩ := reads_bind.1 hb
      rw [reads_advance.1 ha] at hb
      exact ⟨heq, reads_pure.1 hb⟩
    · exact absurd hb reads_fail
  · rintro ⟨heq, rfl, rfl⟩
    refine ⟨_, _, reads_next.2 ⟨rfl, rfl⟩, ?_⟩
    rw [if_pos heq]
    exact .bind .advance (.pure _)

theorem reads_expect {mark : Punct} {place : Place} {u : Unit} :
    Reads (expect mark place) c u c' ↔ c.next.kind = .punct mark ∧ c' = c.advance := by
  unfold expect
  rw [reads_bind]
  constructor
  · rintro ⟨t, c₁, ht, hb⟩
    obtain ⟨hk, -, rfl⟩ := reads_require.1 ht
    exact ⟨hk, (reads_pure.1 hb).2⟩
  · rintro ⟨hk, rfl⟩
    exact ⟨_, _, reads_require.2 ⟨hk, rfl, rfl⟩, .pure _⟩

theorem reads_name {role : NameRole} {r : String × Span} : Reads (name role) c r c' ↔
    c.next.kind = .identifier ∧ r = (c.next.lexeme, c.next.span) ∧ c' = c.advance := by
  unfold name
  rw [reads_bind]
  constructor
  · rintro ⟨t, c₁, ht, hb⟩
    obtain ⟨hk, rfl, rfl⟩ := reads_require.1 ht
    exact ⟨hk, reads_pure.1 hb⟩
  · rintro ⟨hk, rfl, rfl⟩
    exact ⟨_, _, reads_require.2 ⟨hk, rfl, rfl⟩, .pure _⟩

namespace Reads

/-- A mark that has to be there is read. -/
theorem expect {mark : Punct} {place : Place} (hk : c.next.kind = .punct mark) :
    Reads (Parse.expect mark place) c () c.advance := reads_expect.2 ⟨hk, rfl⟩

/-- A token that may be there is read. -/
theorem accept {k : Kind} {f : Bool → Parse β} {b : β} (hk : c.next.kind = k)
    (hf : Reads (f true) c.advance b c') : Reads (Parse.accept k >>= f) c b c' :=
  bind (reads_accept.2 (.inl ⟨hk, rfl, rfl⟩)) hf

/-- A token of another kind is left. -/
theorem refuse {k : Kind} {f : Bool → Parse β} {b : β} (hk : c.next.kind ≠ k)
    (hf : Reads (f false) c b c') : Reads (Parse.accept k >>= f) c b c' :=
  bind (reads_accept.2 (.inr ⟨hk, rfl, rfl⟩)) hf

/-- A name is read with its place. -/
theorem name {role : NameRole} {f : String × Span → Parse β} {b : β}
    (hk : c.next.kind = .identifier)
    (hf : Reads (f (c.next.lexeme, c.next.span)) c.advance b c') :
    Reads (Parse.name role >>= f) c b c' :=
  bind (reads_name.2 ⟨hk, rfl, rfl⟩) hf

end Reads

/-! ## Properties of what is read -/

/-- Whatever a parser reads has a property. -/
def Yields (p : Parse α) (P : α → Prop) : Prop := ∀ c a c', Reads p c a c' → P a

theorem Yields.trivial (p : Parse α) : Yields p fun _ => True := fun _ _ _ _ => ⟨⟩

theorem Yields.pure {P : α → Prop} {a : α} (h : P a) : Yields (Pure.pure a) P := by
  intro c b c' hb
  rw [(reads_pure.1 hb).1]
  exact h

theorem Yields.bind {P : α → Prop} {Q : β → Prop} {p : Parse α} {f : α → Parse β}
    (hp : Yields p P) (hf : ∀ a, P a → Yields (f a) Q) : Yields (p >>= f) Q := by
  intro c b c' hb
  obtain ⟨a, c₁, ha, hb⟩ := reads_bind.1 hb
  exact hf a (hp c a c₁ ha) c₁ b c' hb

/-- What is read first has no part in the property. -/
theorem Yields.after {Q : β → Prop} {p : Parse α} {f : α → Parse β}
    (hf : ∀ a, Yields (f a) Q) : Yields (p >>= f) Q :=
  (Yields.trivial p).bind fun a _ => hf a

theorem Yields.imp {P Q : α → Prop} {p : Parse α} (hp : Yields p P) (h : ∀ a, P a → Q a) :
    Yields p Q := fun c a c' ha => h a (hp c a c' ha)

theorem Yields.map {P : α → Prop} {Q : β → Prop} {p : Parse α} {f : α → β} (hp : Yields p P)
    (hf : ∀ a, P a → Q (f a)) : Yields (f <$> p) Q := by
  intro c b c' hb
  obtain ⟨a, ha, rfl⟩ := reads_map.1 hb
  exact hf a (hp c a c' ha)

theorem Yields.holding {P : α → Prop} {p : Parse α} {items : List Item} (hp : Yields p P) :
    Yields (Parse.holding items p) P := fun c a c' h => hp c a c' (reads_holding.1 h)

theorem Yields.fail {P : α → Prop} {expected : Expected} : Yields (Parse.fail expected) P :=
  fun _ _ _ h => absurd h reads_fail

/-- All phrases between commas have the property that each of them has. -/
theorem Yields.commaSeparated {P : α → Prop} {p : Parse α} (hp : Yields p P)
    (items : α → List Item) (fuel : Nat) :
    Yields (Parse.commaSeparated p items fuel) fun xs => ∀ x ∈ xs, P x := by
  induction fuel with
  | zero => exact hp.bind fun a ha => .pure (by simpa using ha)
  | succ fuel ih =>
      refine hp.bind fun a ha => .after fun more => ?_
      split
      · refine ih.holding.bind fun xs hxs => .pure ?_
        simpa using ⟨ha, hxs⟩
      · exact .pure (by simpa using ha)

end Parse

end Cmm
