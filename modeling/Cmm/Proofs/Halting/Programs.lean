import Cmm.Proofs.Halting.Productions
import Cmm.Proofs.Sentence.Exact

/-!
# Reading halts within the tokens

* `Token.ended` — a list of tokens with the end mark that it gets if it does not end with one.
* `Cursor.StandsAt` — a cursor stands at an index, not behind the first end mark. A step keeps it
  there or moves it to the next index.
* `Reading.halts_in_bounds` — whatever the tokens, reading them halts, the cursor stays within them
  and never goes back, and what is read as a phrase is one token at least.
-/

set_option autoImplicit false

namespace Cmm

namespace Token

/-- The tokens with an end mark behind them, unless they end with one. -/
def ended (tokens : List Token) : List Token :=
  if tokens.getLast?.any Cursor.isEnd then tokens
  else tokens ++ [.endAt ((tokens.getLast?.map (·.span.stop)).getD 0)]

/-- The index of the first end mark. -/
def firstEnd (tokens : List Token) : Nat := (ended tokens).findIdx Cursor.isEnd

theorem firstEnd_lt (tokens : List Token) : firstEnd tokens < (ended tokens).length := by
  rw [firstEnd, List.findIdx_lt_length]
  unfold ended
  split
  · rename_i hlast
    obtain ⟨t, ht, hend⟩ := (Option.any_eq_true _ _).1 hlast
    exact ⟨t, List.mem_of_getLast? ht, hend⟩
  · exact ⟨_, List.mem_append_right _ (List.mem_singleton_self _), rfl⟩

/-- The tokens up to a first end mark, with the mark. -/
theorem take_findIdx {tokens : List Token} {mark : Token}
    (h : tokens.find? Cursor.isEnd = some mark) :
    tokens.take (tokens.findIdx Cursor.isEnd + 1) =
      tokens.takeWhile (!Cursor.isEnd ·) ++ [mark] := by
  induction tokens with
  | nil => cases h
  | cons t rest ih =>
      cases hend : Cursor.isEnd t with
      | true =>
          rw [List.find?_cons_of_pos hend] at h
          cases h
          simp [List.findIdx_cons, hend]
      | false =>
          rw [List.find?_cons_of_neg (by simp [hend])] at h
          simpa [List.findIdx_cons, hend] using ih h

theorem takeWhile_concat {tokens : List Token} {mark : Token} (h : Cursor.isEnd mark = true) :
    (tokens ++ [mark]).takeWhile (!Cursor.isEnd ·) = tokens.takeWhile (!Cursor.isEnd ·) := by
  induction tokens with
  | nil => simp [h]
  | cons t rest ih => simp [List.takeWhile_cons, ih]

/-- Up to the first end mark stands what a cursor has to read. -/
theorem take_ended (tokens : List Token) : (ended tokens).take (firstEnd tokens + 1) =
    (Cursor.start tokens).rest ++ [(Cursor.start tokens).stop] := by
  unfold firstEnd ended Cursor.start
  dsimp only
  split
  · rename_i hlast
    obtain ⟨t, ht, hend⟩ := (Option.any_eq_true _ _).1 hlast
    have hsome : (tokens.find? Cursor.isEnd).isSome :=
      List.find?_isSome.2 ⟨t, List.mem_of_getLast? ht, hend⟩
    obtain ⟨mark, hmark⟩ := Option.isSome_iff_exists.1 hsome
    rw [take_findIdx hmark, hmark, Option.getD_some]
  · generalize hmark : Token.endAt _ = mark
    have hend : Cursor.isEnd mark = true := by
      rw [← hmark]
      rfl
    have hfind : (tokens ++ [mark]).find? Cursor.isEnd =
        some ((tokens.find? Cursor.isEnd).getD mark) := by
      rw [List.find?_append]
      cases tokens.find? Cursor.isEnd <;> simp [hend]
    rw [take_findIdx hfind, takeWhile_concat hend]

end Token

namespace Cursor

variable {tokens : List Token} {c c' : Cursor} {i : Nat}

/-- A cursor stands at an index of the tokens, and not behind the first end mark: what is left is
what stands there up to the mark. -/
structure StandsAt (tokens : List Token) (i : Nat) (c : Cursor) : Prop where
  inside : i ≤ Token.firstEnd tokens
  left : c.rest ++ [c.stop] = ((Token.ended tokens).take (Token.firstEnd tokens + 1)).drop i

namespace StandsAt

theorem start (tokens : List Token) : (Cursor.start tokens).StandsAt tokens 0 :=
  ⟨Nat.zero_le _, by rw [List.drop_zero, Token.take_ended]⟩

/-- There is a token with the index, and it is the one at the cursor. -/
theorem index (h : c.StandsAt tokens i) : (Token.ended tokens)[i]? = some c.next := by
  have hfirst : (c.rest ++ [c.stop])[0]? = some c.next := by
    unfold next
    cases c.rest <;> rfl
  have hin : i + 0 < Token.firstEnd tokens + 1 := Nat.lt_succ_of_le h.inside
  rwa [h.left, List.getElem?_drop, List.getElem?_take_of_lt hin] at hfirst

/-- Each cursor stops at the first end mark. -/
theorem stop_eq (h : c.StandsAt tokens i) : c.stop = (Cursor.start tokens).stop := by
  have hlength : (Cursor.start tokens).rest.length = Token.firstEnd tokens := by
    have htake := congrArg List.length (Token.take_ended tokens)
    rw [List.length_take_of_le (Token.firstEnd_lt tokens), List.length_append,
      List.length_singleton] at htake
    omega
  have hleft := h.left
  rw [Token.take_ended, List.drop_append_of_le_length (by rw [hlength]; exact h.inside)] at hleft
  exact List.singleton_inj.1 (List.append_inj' hleft rfl).2

/-- Behind a word that is read, the index is higher by its length. -/
theorem reaches (h : c.StandsAt tokens i) {w : List Kind} (hw : c.Reaches w c') :
    c'.StandsAt tokens (i + w.length) := by
  obtain ⟨read, hrest, rfl⟩ := hw.tokens
  have hleft : c'.rest ++ [c'.stop] = (c.rest ++ [c.stop]).drop read.length := by
    rw [hw.stop, hrest, List.append_assoc, List.drop_left]
  have hlength := congrArg List.length hleft
  have htotal := congrArg List.length h.left
  simp only [List.length_append, List.length_drop, List.length_take, List.length_cons,
    List.length_nil] at hlength htotal
  have hin := Token.firstEnd_lt tokens
  rw [List.length_map]
  refine ⟨by omega, ?_⟩
  rw [hleft, h.left, List.drop_drop]

/-- The cursor behind the next token stands at the next index, or at the same one at the end. -/
theorem advance (h : c.StandsAt tokens i) :
    ∃ j, i ≤ j ∧ c.advance.StandsAt tokens j := by
  unfold Cursor.advance
  cases hrest : c.rest with
  | nil => exact ⟨i, Nat.le_refl i, h⟩
  | cons t rest =>
      refine ⟨i + 1, Nat.le_succ i, h.reaches (w := [t.kind]) ⟨rfl, [t], hrest, rfl⟩⟩

/-- Along a way, the cursor stands at indices that never decrease. -/
theorem indices {places : List Cursor}
    (chain : places.IsChain fun before after => after = before ∨ after = before.advance)
    (first : places.head? = some c) (h : c.StandsAt tokens i) :
    ∃ indices, indices.head? = some i ∧ indices.IsChain (· ≤ ·) ∧
      List.Forall₂ (StandsAt tokens) indices places := by
  induction places generalizing c i with
  | nil => cases first
  | cons place rest ih =>
      cases first
      cases rest with
      | nil => exact ⟨[i], rfl, .singleton i, .cons h .nil⟩
      | cons next later =>
          obtain ⟨hmove, hchain⟩ := List.isChain_cons_cons.1 chain
          have hnext : ∃ j, i ≤ j ∧ next.StandsAt tokens j := by
            rcases hmove with rfl | rfl
            · exact ⟨i, Nat.le_refl i, h⟩
            · exact h.advance
          obtain ⟨j, hij, hj⟩ := hnext
          obtain ⟨indices, hfirst, hsorted, hstand⟩ := ih hchain rfl hj
          refine ⟨i :: indices, rfl, List.isChain_cons.2 ⟨fun k hk => ?_, hsorted⟩, .cons h hstand⟩
          cases hfirst.symm.trans hk
          exact hij

end StandsAt

end Cursor

/-! ## Progress -/

open Parse Sentence

variable {α : Type} {p : Parse α} {tokens : List Token} {c : Cursor} {i : Nat}

/-- What a parser reads behind a cursor at an index moves the cursor to a higher index. -/
def Parse.Advances (p : Parse α) (tokens : List Token) (i : Nat) (c : Cursor) : Prop :=
  ∀ a c', Reads p c a c' → ∃ j, i < j ∧ c'.StandsAt tokens j

namespace Cursor.StandsAt

/-- A parser that reads words with a first kind moves the cursor on. -/
theorem advances {l : Language Kind} (h : c.StandsAt tokens i) (hp : Spells Anywhere p l)
    (hl : ∀ w ∈ l, ∃ k v, w = k :: v) : p.Advances tokens i c := by
  intro a c' hr
  have hstop : c.stop.kind = .endOfFile := by
    rw [h.stop_eq]
    exact kind_stop_start tokens
  obtain ⟨w, hw, hreach⟩ := hp c a c' hstop trivial hr
  obtain ⟨k, v, rfl⟩ := hl w hw
  refine ⟨i + (k :: v).length, ?_, h.reaches hreach⟩
  rw [List.length_cons]
  omega

end Cursor.StandsAt

namespace Reading

/-- **Reading halts within the tokens**, whatever they are: with or without an end mark, also with
one or with malformed tokens between others. More fuel than one for each token changes nothing, so
none is ever missed. The cursor walks a way that ends, and on every such way stands at indices of
the tokens that never decrease and do not pass the first end mark. What is read from there as a
declaration, a statement, an expression or the arguments of a call leads to a higher index. -/
theorem halts_in_bounds (tokens : List Token) :
    let parser := Grammar.program tokens.length tokens.length
    let start := Cursor.start tokens
    (∀ bound fuel, tokens.length ≤ bound → tokens.length ≤ fuel →
      Grammar.program bound fuel start = parser start) ∧
    (∃ places, Walks parser start places) ∧
    (∀ places, Walks parser start places → ∃ indices : List Nat,
      List.Forall₂ (Cursor.StandsAt tokens) indices places ∧ indices.Pairwise (· ≤ ·)) ∧
    ∀ i c, c.StandsAt tokens i →
      (i ≤ Token.firstEnd tokens ∧ (Token.ended tokens)[i]? = some c.next) ∧
      ∀ fuel, (Grammar.declaration fuel).Advances tokens i c ∧
        (Grammar.statement fuel).Advances tokens i c ∧
        (Grammar.expression fuel).Advances tokens i c ∧
        (Grammar.arguments fuel (Grammar.expression fuel)).Advances tokens i c := by
  intro parser start
  have hstop : start.stop.kind = .endOfFile := Cursor.kind_stop_start tokens
  have hlength : start.rest.length ≤ tokens.length := by
    rw [Cursor.rest_start]
    exact (List.takeWhile_sublist _).length_le
  have hhalts {bound fuel : Nat} (hbound : tokens.length ≤ bound) (hfuel : tokens.length ≤ fuel) :=
    Grammar.halts_program (Nat.le_refl _) hbound (Nat.le_refl _) hfuel start hstop hlength
  refine ⟨fun bound fuel hbound hfuel => (hhalts hbound hfuel).2.1,
    (hhalts (Nat.le_refl _) (Nat.le_refl _)).1, fun places way => ?_, fun i c h => ?_⟩
  · obtain ⟨indices, -, hsorted, hstand⟩ := Cursor.StandsAt.indices way.isChain way.ends.1
      (.start tokens)
    exact ⟨indices, hstand, List.isChain_iff_pairwise.1 hsorted⟩
  · refine ⟨⟨h.inside, h.index⟩, fun fuel => ⟨?_, ?_, ?_, ?_⟩⟩
    · refine h.advances (Grammar.spells_declaration fuel) fun w hw => ?_
      obtain ⟨k, v, rfl, -⟩ := Grammar.first_declaration hw
      exact ⟨k, v, rfl⟩
    · refine h.advances (Grammar.spells_statement fuel) fun w hw => ?_
      obtain ⟨k, v, rfl, -⟩ := first_statement hw
      exact ⟨k, v, rfl⟩
    · refine h.advances (Grammar.spells_expression fuel) fun w hw => ?_
      obtain ⟨k, v, rfl, -⟩ := first_expression hw
      exact ⟨k, v, rfl⟩
    · refine h.advances (Grammar.spells_arguments (Grammar.spells_expression fuel) fuel)
        fun w hw => ?_
      obtain ⟨v, -, rfl⟩ := Ebnf.mem_letter_mul.1 hw
      exact ⟨_, v, rfl⟩

/-- A malformed token in front of an end mark and a token behind it. -/
theorem halts_in_bounds_malformed :
    let tokens : List Token := [⟨.punct .semicolon, ";", ⟨0, 1⟩⟩, ⟨.invalid, "@", ⟨1, 1⟩⟩,
      .endAt 2, ⟨.punct .semicolon, ";", ⟨2, 1⟩⟩]
    let start := Cursor.start tokens
    (4 ≤ 9 ∧ Grammar.program 9 9 start = Grammar.program 4 4 start) ∧
    (∃ places, ∃ indices : List Nat, Walks (Grammar.program 4 4) start places ∧
      List.Forall₂ (Cursor.StandsAt tokens) indices places ∧ indices.Pairwise (· ≤ ·)) ∧
    start.StandsAt tokens 0 ∧ Reads (Grammar.statement 1) start .empty start.advance ∧
    ∃ j, 0 < j ∧ start.advance.StandsAt tokens j := by
  intro tokens start
  obtain ⟨hfuel, ⟨places, hway⟩, hplaces, hcursor⟩ := halts_in_bounds tokens
  obtain ⟨indices, hstand, hsorted⟩ := hplaces places hway
  have hstart : start.StandsAt tokens 0 := .start tokens
  have hread : Reads (Grammar.statement 1) start .empty start.advance := rfl
  obtain ⟨-, hadvances⟩ := hcursor 0 start hstart
  exact ⟨⟨by decide, hfuel 9 9 (by decide) (by decide)⟩,
    ⟨places, indices, hway, hstand, hsorted⟩, hstart, hread, (hadvances 1).2.1 _ _ hread⟩

end Reading

end Cmm
