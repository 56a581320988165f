import Mathlib.Computability.Language

/-!
# Extended grammars

* `Ebnf` — the right side of a production: terminals, names of productions, sequences, alternatives
  and repetitions.
* `Ebnf.Derives` — the words of a right side under the productions of a grammar.
* `Ebnf.language` — these words as a language; `language_seq` and its like say that it is put
  together the way the right side is.
-/

set_option autoImplicit false

namespace Cmm

/-- The right side of a production, over terminals `τ` and productions named by `ν`. -/
inductive Ebnf (ν τ : Type) where
  /-- One of some terminals. -/
  | oneOf (ts : List τ)
  | rule (n : ν)
  | empty
  | seq (e f : Ebnf ν τ)
  | alt (e f : Ebnf ν τ)
  /-- Any number of repetitions, none among them. -/
  | many (e : Ebnf ν τ)

namespace Ebnf

open Computability

variable {ν τ : Type}

instance : Append (Ebnf ν τ) := ⟨seq⟩

instance : OrOp (Ebnf ν τ) := ⟨alt⟩

/-- One terminal. -/
def token (t : τ) : Ebnf ν τ := oneOf [t]

/-- A part that may be missing. -/
def option (e : Ebnf ν τ) : Ebnf ν τ := e ||| empty

/-- One or more parts with a terminal between them. -/
def separated (t : τ) (e : Ebnf ν τ) : Ebnf ν τ := e ++ many (token t ++ e)

/-- A word belongs to a right side. -/
inductive Derives (productions : ν → Ebnf ν τ) : Ebnf ν τ → List τ → Prop
  | oneOf {ts : List τ} {t : τ} (mem : t ∈ ts) : Derives productions (.oneOf ts) [t]
  | rule {n : ν} {w : List τ} (unfolded : Derives productions (productions n) w) :
      Derives productions (.rule n) w
  | empty : Derives productions .empty []
  | seq {e f : Ebnf ν τ} {u v : List τ} (first : Derives productions e u)
      (second : Derives productions f v) : Derives productions (.seq e f) (u ++ v)
  | left {e f : Ebnf ν τ} {w : List τ} (chosen : Derives productions e w) :
      Derives productions (.alt e f) w
  | right {e f : Ebnf ν τ} {w : List τ} (chosen : Derives productions f w) :
      Derives productions (.alt e f) w
  | done {e : Ebnf ν τ} : Derives productions (.many e) []
  | more {e : Ebnf ν τ} {u v : List τ} (first : Derives productions e u)
      (others : Derives productions (.many e) v) : Derives productions (.many e) (u ++ v)

/-- The words of a right side. -/
def language (productions : ν → Ebnf ν τ) (e : Ebnf ν τ) : Language τ :=
  {w | Derives productions e w}

variable {productions : ν → Ebnf ν τ}

theorem mem_language {e : Ebnf ν τ} {w : List τ} :
    w ∈ language productions e ↔ Derives productions e w := Iff.rfl

/-! ## Languages of right sides -/

/-- The language of the words with a single terminal out of a list. -/
def letters (ts : List τ) : Language τ := {w | ∃ t ∈ ts, w = [t]}

/-- The language of the one word with a single terminal. -/
abbrev letter (t : τ) : Language τ := letters [t]

theorem mem_letters {ts : List τ} {w : List τ} : w ∈ letters ts ↔ ∃ t ∈ ts, w = [t] := Iff.rfl

theorem mem_letter {t : τ} {w : List τ} : w ∈ letter t ↔ w = [t] := by
  simp [mem_letters]

theorem singleton_mem_letter (t : τ) : [t] ∈ letter t := mem_letter.2 rfl

theorem mem_letter_mul {t : τ} {l : Language τ} {w : List τ} :
    w ∈ letter t * l ↔ ∃ v ∈ l, w = t :: v := by
  rw [Language.mem_mul]
  constructor
  · rintro ⟨u, hu, v, hv, rfl⟩
    rw [mem_letter.1 hu]
    exact ⟨v, hv, rfl⟩
  · rintro ⟨v, hv, rfl⟩
    exact ⟨[t], singleton_mem_letter t, v, hv, rfl⟩

theorem mem_mul_letter {t : τ} {l : Language τ} {w : List τ} :
    w ∈ l * letter t ↔ ∃ u ∈ l, w = u ++ [t] := by
  rw [Language.mem_mul]
  constructor
  · rintro ⟨u, hu, v, hv, rfl⟩
    rw [mem_letter.1 hv]
    exact ⟨u, hu, rfl⟩
  · rintro ⟨u, hu, rfl⟩
    exact ⟨u, hu, [t], singleton_mem_letter t, rfl⟩

theorem mem_letters_mul {ts : List τ} {l : Language τ} {w : List τ} :
    w ∈ letters ts * l ↔ ∃ t ∈ ts, ∃ v ∈ l, w = t :: v := by
  rw [Language.mem_mul]
  constructor
  · rintro ⟨_, ⟨t, ht, rfl⟩, v, hv, rfl⟩
    exact ⟨t, ht, v, hv, rfl⟩
  · rintro ⟨t, ht, v, hv, rfl⟩
    exact ⟨[t], ⟨t, ht, rfl⟩, v, hv, rfl⟩

/-- A word of a language in front of repetitions is one repetition more. -/
theorem more_mem_kstar {l : Language τ} {u v : List τ} (hu : u ∈ l) (hv : v ∈ l∗) :
    u ++ v ∈ l∗ := by
  obtain ⟨parts, rfl, hparts⟩ := Language.mem_kstar.1 hv
  exact Language.mem_kstar.2 ⟨u :: parts, rfl, List.forall_mem_cons.2 ⟨hu, hparts⟩⟩

/-- Repetitions are none, or one in front of others. -/
theorem mem_kstar_iff {l : Language τ} {w : List τ} :
    w ∈ l∗ ↔ w = [] ∨ ∃ u ∈ l, ∃ v ∈ l∗, w = u ++ v := by
  constructor
  · rintro ⟨parts, rfl, hparts⟩
    cases parts with
    | nil => exact .inl rfl
    | cons u rest =>
        obtain ⟨hu, hrest⟩ := List.forall_mem_cons.1 hparts
        exact .inr ⟨u, hu, rest.flatten, Language.join_mem_kstar hrest, rfl⟩
  · rintro (rfl | ⟨u, hu, v, hv, rfl⟩)
    · exact Language.nil_mem_kstar l
    · exact more_mem_kstar hu hv

/-- Repetitions are built up from the front. -/
theorem kstar_induction {l : Language τ} {P : List τ → Prop} (nil : P [])
    (more : ∀ u ∈ l, ∀ v ∈ l∗, P v → P (u ++ v)) {w : List τ} (hw : w ∈ l∗) : P w := by
  obtain ⟨parts, rfl, hparts⟩ := Language.mem_kstar.1 hw
  clear hw
  induction parts with
  | nil => exact nil
  | cons u rest ih =>
      obtain ⟨hu, hrest⟩ := List.forall_mem_cons.1 hparts
      exact more u hu _ (Language.join_mem_kstar hrest) (ih hrest)

theorem language_oneOf (ts : List τ) : language productions (oneOf ts) = letters ts := by
  ext w
  constructor
  · intro h
    cases h with
    | oneOf mem => exact ⟨_, mem, rfl⟩
  · rintro ⟨t, ht, rfl⟩
    exact .oneOf ht

theorem language_token (t : τ) : language productions (token t) = letter t := language_oneOf [t]

theorem language_rule (n : ν) :
    language productions (rule n) = language productions (productions n) := by
  ext w
  constructor
  · intro h
    cases h with
    | rule unfolded => exact unfolded
  · exact .rule

theorem language_empty : language productions empty = 1 := by
  ext w
  rw [Language.mem_one]
  constructor
  · intro h
    cases h
    rfl
  · rintro rfl
    exact .empty

theorem language_seq (e f : Ebnf ν τ) :
    language productions (e ++ f) = language productions e * language productions f := by
  ext w
  rw [Language.mem_mul]
  constructor
  · intro h
    cases h with
    | seq first second => exact ⟨_, first, _, second, rfl⟩
  · rintro ⟨u, hu, v, hv, rfl⟩
    exact .seq hu hv

theorem language_alt (e f : Ebnf ν τ) :
    language productions (e ||| f) = language productions e + language productions f := by
  ext w
  rw [Language.mem_add]
  constructor
  · intro h
    cases h with
    | left chosen => exact .inl chosen
    | right chosen => exact .inr chosen
  · rintro (h | h)
    · exact .left h
    · exact .right h

theorem language_many (e : Ebnf ν τ) :
    language productions (many e) = (language productions e)∗ := by
  ext w
  constructor
  · intro h
    rw [mem_language] at h
    generalize hm : many e = m at h
    induction h with
    | done => exact Language.nil_mem_kstar _
    | more first _ _ ih =>
        cases hm
        exact more_mem_kstar first (ih rfl)
    | oneOf | rule | empty | seq | left | right => cases hm
  · exact kstar_induction .done fun u hu v _ hv => .more hu hv

theorem language_option (e : Ebnf ν τ) :
    language productions (option e) = language productions e + 1 := by
  rw [option, language_alt, language_empty]

theorem language_separated (t : τ) (e : Ebnf ν τ) : language productions (separated t e) =
    language productions e * (letter t * language productions e)∗ := by
  rw [separated, language_seq, language_many, language_seq, language_token]

end Ebnf

end Cmm
