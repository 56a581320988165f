import Mathlib.Data.List.Forall2

/-!
# Lists by position

What is said of a list position by position comes out as a list again, shorter where nothing is to
be said.

* `ByPosition` — a list has an entry for every position with something to say, and no other.
* `compareFrom` — two lists are compared as far as both reach; `byPosition_compareFrom` says what
  comes out.
-/

set_option autoImplicit false

namespace Cmm

variable {α β γ : Type} {At : Nat → γ → Prop} {x : γ} {xs : List γ}

/-- A list has the entries of all positions that have one, in the order of the positions. -/
def ByPosition (At : Nat → γ → Prop) (xs : List γ) : Prop :=
  ∃ positions : List Nat, positions.Pairwise (· < ·) ∧ (∀ i, i ∈ positions ↔ ∃ x, At i x) ∧
    List.Forall₂ At positions xs

namespace ByPosition

theorem nil (none : ∀ i x, ¬ At i x) : ByPosition At [] := by
  refine ⟨[], .nil, ?_, .nil⟩
  simpa using none

/-- The positions behind the first one, counted from there. -/
theorem shift {positions : List Nat} (ascending : positions.Pairwise (· < ·)) :
    (positions.map (· + 1)).Pairwise (· < ·) ∧ ∀ i ∈ positions.map (· + 1), 0 < i := by
  constructor
  · rw [List.pairwise_map]
    exact ascending.imp fun h => Nat.succ_lt_succ h
  · intro i hi
    obtain ⟨j, -, rfl⟩ := List.mem_map.1 hi
    omega

/-- The first position has an entry. -/
theorem cons (here : At 0 x) (later : ByPosition (fun i => At (i + 1)) xs) :
    ByPosition At (x :: xs) := by
  obtain ⟨positions, ascending, complete, entries⟩ := later
  obtain ⟨hascending, hpos⟩ := shift ascending
  refine ⟨0 :: positions.map (· + 1), ?_, ?_, ?_⟩
  · exact List.pairwise_cons.2 ⟨hpos, hascending⟩
  · intro i
    cases i with
    | zero => simpa using ⟨x, here⟩
    | succ i => simpa using complete i
  · exact .cons here (List.forall₂_map_left_iff.2 entries)

/-- The first position has none. -/
theorem skip (here : ∀ x, ¬ At 0 x) (later : ByPosition (fun i => At (i + 1)) xs) :
    ByPosition At xs := by
  obtain ⟨positions, ascending, complete, entries⟩ := later
  obtain ⟨hascending, hpos⟩ := shift ascending
  refine ⟨positions.map (· + 1), hascending, ?_, List.forall₂_map_left_iff.2 entries⟩
  intro i
  cases i with
  | zero => simpa using here
  | succ i => simpa using complete i

/-- The list is empty just where no position has an entry. -/
theorem eq_nil_iff (h : ByPosition At xs) : xs = [] ↔ ∀ i x, ¬ At i x := by
  obtain ⟨positions, -, complete, entries⟩ := h
  cases entries with
  | nil => simpa using complete
  | @cons i x _ _ here _ =>
      constructor
      · intro h
        cases h
      · intro none
        exact absurd here (none i x)

end ByPosition

/-- What is found where two lists are compared, as far as both reach. -/
def compareFrom (find : Nat → α → β → Option γ) : (position : Nat) → List α → List β → List γ
  | position, a :: as, b :: bs =>
    (find position a b).toList ++ compareFrom find (position + 1) as bs
  | _, _, _ => []

/-- **A comparison says what there is to say at every position**, the first one first. -/
theorem byPosition_compareFrom (find : Nat → α → β → Option γ) (position : Nat) (as : List α)
    (bs : List β) : ByPosition (fun i x => ∃ a b, as[i]? = some a ∧ bs[i]? = some b ∧
      find (position + i) a b = some x) (compareFrom find position as bs) := by
  induction as generalizing position bs with
  | nil =>
      apply ByPosition.nil
      simp
  | cons a as ih =>
      cases bs with
      | nil =>
          apply ByPosition.nil
          simp
      | cons b bs =>
          have hlater := ih (position + 1) bs
          simp only [Nat.add_assoc, Nat.add_comm 1] at hlater
          cases hfind : find position a b with
          | none =>
              rw [compareFrom, hfind]
              apply ByPosition.skip
              · simp [hfind]
              · simpa using hlater
          | some x =>
              rw [compareFrom, hfind]
              apply ByPosition.cons
              · simpa using hfind
              · simpa using hlater

end Cmm
