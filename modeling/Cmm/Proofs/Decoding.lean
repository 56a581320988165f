import Cmm.Escape
import Mathlib.Logic.Basic

/-!
# What bodies of constants stand for

Bodies of strings are decoded in a loop, those of characters in a single step. Both read the same
language: characters of ASCII for themselves, and escapes.

* `Escape.Spells` — a body and the text it stands for, escape by escape.
* `Escape.decodeText_eq_some_iff`, `Escape.decodeByte_eq_some_iff` — what the two decoders find.
* `Escape.decoders_agree` — they are one decoder, and it goes through a body from front to back.
-/

set_option autoImplicit false

namespace Cmm.Escape

variable {c e : Char} {body text : List Char}

/-- A body and the text it stands for. -/
inductive Spells : List Char → List Char → Prop
  | nil : Spells [] []
  | plain {c : Char} {body text : List Char} (ascii : c.val < 128) (backslash : c ≠ '\\')
      (rest : Spells body text) : Spells (c :: body) (c :: text)
  | escape {e c : Char} {body text : List Char} (known : meaning e = some c)
      (rest : Spells body text) : Spells ('\\' :: e :: body) (c :: text)

theorem ascii_of_meaning (h : meaning e = some c) : c.val < 128 := by
  unfold meaning at h
  split at h <;> cases h <;> decide

namespace Spells

theorem ascii (h : Spells body text) : ∀ c ∈ text, c.val < 128 := by
  induction h with
  | nil => simp
  | plain ascii _ _ ih => exact List.forall_mem_cons.2 ⟨ascii, ih⟩
  | escape known _ ih => exact List.forall_mem_cons.2 ⟨ascii_of_meaning known, ih⟩

theorem length_le (h : Spells body text) : text.length ≤ body.length := by
  induction h with
  | nil => exact Nat.le_refl _
  | plain _ _ _ ih => exact Nat.succ_le_succ ih
  | escape _ _ ih => exact Nat.le_succ_of_le (Nat.succ_le_succ ih)

end Spells

theorem spells_plain_iff (backslash : c ≠ '\\') :
    Spells (c :: body) text ↔ c.val < 128 ∧ ∃ rest, Spells body rest ∧ c :: rest = text := by
  constructor
  · intro h
    cases h with
    | plain ascii _ rest => exact ⟨ascii, _, rest, rfl⟩
    | escape => exact absurd rfl backslash
  · rintro ⟨ascii, rest, hrest, rfl⟩
    exact .plain ascii backslash hrest

theorem spells_escape_iff : Spells ('\\' :: e :: body) text ↔
    ∃ c rest, meaning e = some c ∧ Spells body rest ∧ c :: rest = text := by
  constructor
  · intro h
    cases h with
    | plain _ backslash => exact absurd rfl backslash
    | escape known rest => exact ⟨_, _, known, rest, rfl⟩
  · rintro ⟨c, rest, known, hrest, rfl⟩
    exact .escape known hrest

/-- Behind a body that stands for a text, this text goes on with what the other body stands for. The
induction is along the escapes of the first body, so that none of them is cut apart. -/
theorem Spells.append_iff (h : Spells body text) {back whole : List Char} :
    Spells (body ++ back) whole ↔ ∃ more, Spells back more ∧ text ++ more = whole := by
  induction h generalizing whole with
  | nil => simp
  | plain ascii backslash _ ih =>
      rw [List.cons_append, spells_plain_iff backslash]
      simp [ih, ascii]
  | escape known _ ih =>
      rw [List.cons_append, List.cons_append, spells_escape_iff]
      simp [ih, known]

/-! ## The two decoders -/

/-- What begins neither an escape nor stands alone as a backslash is no backslash. -/
theorem ne_backslash (hend : c = '\\' → body = [] → False)
    (hescape : ∀ (e : Char) (rest : List Char), c = '\\' → body = e :: rest → False) :
    c ≠ '\\' := by
  rintro rfl
  cases body with
  | nil => exact hend rfl rfl
  | cons e rest => exact hescape e rest rfl rfl

theorem decodeText_cons (backslash : c ≠ '\\') : decodeText (c :: body) =
    if c.val < 128 then (decodeText body).map (c :: ·) else none := by
  rw [decodeText]
  · simp [isAscii]
  · exact fun h _ => backslash h
  · exact fun _ _ h _ => backslash h

theorem decodeText_backslash : decodeText ('\\' :: e :: body) =
    (meaning e).bind fun c => (decodeText body).map (c :: ·) := by
  rw [decodeText]
  cases meaning e <;> cases decodeText body <;> rfl

/-- The loop over the body of a string finds the text that the body stands for. -/
theorem decodeText_eq_some_iff : decodeText body = some text ↔ Spells body text := by
  constructor
  · intro h
    fun_induction decodeText body generalizing text with
    | case1 =>
        cases h
        exact .nil
    | case3 e rest c decoded hrest known ih =>
        cases h
        exact .escape known (ih hrest)
    | case5 c rest hend hescape ascii ih =>
        obtain ⟨decoded, hrest, rfl⟩ := Option.map_eq_some_iff.1 h
        exact .plain (of_decide_eq_true ascii) (ne_backslash hend hescape) (ih hrest)
    | case2 | case4 | case6 => cases h
  · intro h
    induction h with
    | nil => rfl
    | plain ascii backslash _ ih => rw [decodeText_cons backslash, if_pos ascii, ih]; rfl
    | escape known _ ih => rw [decodeText_backslash, known, ih]; rfl

/-- The byte of a character of ASCII is the code of this character alone. -/
theorem toUInt8_eq_iff (ascii : c.val < 128) {b : UInt8} :
    c.val.toUInt8 = b ↔ c = Char.ofUInt8 b := by
  have hsmall : c.val.toNat < 128 := UInt32.lt_iff_toNat_lt.1 ascii
  rw [Char.ext_iff, ← UInt8.toNat_inj, ← UInt32.toNat_inj]
  show c.val.toUInt8.toNat = b.toNat ↔ c.val.toNat = b.toUInt32.toNat
  rw [UInt32.toNat_toUInt8, UInt8.toNat_toUInt32]
  omega

/-- The single step over the body of a character finds the byte whose character is the text that
the body stands for. -/
theorem decodeByte_eq_some_iff {b : UInt8} :
    decodeByte body = some b ↔ Spells body [Char.ofUInt8 b] := by
  constructor
  · intro h
    unfold decodeByte at h
    split at h
    · rename_i c
      split at h
      · rename_i hplain
        obtain ⟨ascii, backslash⟩ := Bool.and_eq_true_iff.1 hplain
        replace ascii : c.val < 128 := of_decide_eq_true ascii
        rw [← (toUInt8_eq_iff ascii).1 (Option.some.inj h)]
        exact .plain ascii (bne_iff_ne.1 backslash) .nil
      · cases h
    · rename_i e
      obtain ⟨c, known, hb⟩ := Option.map_eq_some_iff.1 h
      rw [← (toUInt8_eq_iff (ascii_of_meaning known)).1 hb]
      exact .escape known .nil
    · cases h
  · intro h
    generalize hc : Char.ofUInt8 b = c at h
    cases h with
    | plain ascii backslash rest =>
        cases rest
        rw [decodeByte, isAscii, decide_eq_true ascii, bne_iff_ne.2 backslash]
        exact congrArg some ((toUInt8_eq_iff ascii).2 hc.symm)
    | escape known rest =>
        cases rest
        rw [decodeByte, known]
        exact congrArg some ((toUInt8_eq_iff (ascii_of_meaning known)).2 hc.symm)

/-- **The two decoders are one.** A body decodes to a byte if and only if it decodes to the text of
the one character with this code. Behind a body that decodes, decoding goes on as if the other body
stood alone, and fails if this one fails. What a body decodes to is ASCII, and not longer than the
body. -/
theorem decoders_agree :
    (∀ (body : List Char) (b : UInt8),
      decodeByte body = some b ↔ decodeText body = some [Char.ofUInt8 b]) ∧
    (∀ front text : List Char, decodeText front = some text → ∀ back : List Char,
      decodeText (front ++ back) = (decodeText back).map (text ++ ·)) ∧
    ∀ body text : List Char, decodeText body = some text →
      (∀ c ∈ text, c.val < 128) ∧ text.length ≤ body.length := by
  refine ⟨fun body b => ?_, fun front text hfront back => ?_, fun body text hbody => ?_⟩
  · rw [decodeByte_eq_some_iff, decodeText_eq_some_iff]
  · apply Option.ext
    intro whole
    rw [decodeText_eq_some_iff, (decodeText_eq_some_iff.1 hfront).append_iff,
      Option.map_eq_some_iff]
    simp only [decodeText_eq_some_iff]
  · have hspells := decodeText_eq_some_iff.1 hbody
    exact ⟨hspells.ascii, hspells.length_le⟩

/-- Behind two backslashes an `n` stands for itself, and a third backslash for nothing. -/
theorem decoders_agree_backslashes :
    let front := ['a', '\\', '\\']
    decodeText front = some ['a', '\\'] ∧
      decodeText (front ++ ['n']) = some ['a', '\\', 'n'] ∧
      decodeText (front ++ ['\\']) = none ∧
      decodeByte ['\\', 'n'] = some 10 ∧ decodeText ['\\', 'n'] = some [Char.ofUInt8 10] ∧
      (∀ c ∈ ['a', '\\'], c.val < 128) ∧ ['a', '\\'].length ≤ front.length := by
  intro front
  obtain ⟨hbyte, hgoes, hbounds⟩ := decoders_agree
  have hfront : decodeText front = some ['a', '\\'] := by decide
  have hnewline : decodeByte ['\\', 'n'] = some 10 := by decide
  exact ⟨hfront, hgoes _ _ hfront ['n'], hgoes _ _ hfront ['\\'], hnewline,
    (hbyte _ _).1 hnewline, hbounds _ _ hfront⟩

/-- A text that ends in half an escape does not decode, and a longer one may. -/
example : decodeText ['\\'] = none ∧ decodeText (['\\'] ++ ['n']) = some ['\n'] := by decide

end Cmm.Escape
