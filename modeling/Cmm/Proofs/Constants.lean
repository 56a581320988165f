import Cmm.Proofs.Parse
import Cmm.Proofs.Scan.Spread
import Mathlib.Algebra.Group.Nat.Even

/-!
# Constants in quotes

The end of a constant is found by stepping over escapes, its body is checked, and the parser cuts
the body out and decodes it once more. All of them take the same body.

* `Token.StandsFor` — the expression that a token is read as where an operand begins with it.
* `Escape.IsEscaped` — whether what stands behind a text is escaped, by the backslashes it ends in.
* `Literal.Encloses` — a lexeme is a body in quotes, and the quote that closes it is the first one
  that is not escaped.
* `quoted_constants_agree` — every constant in quotes is cut, decoded and read alike.
-/

set_option autoImplicit false

namespace Cmm

/-- Where an operand begins with the token, the token alone is read, as this expression. -/
def Token.StandsFor (t : Token) (e : Expr) : Prop :=
  ∀ (c : Cursor) (fuel : Nat), c.next = t → Parse.Reads (Grammar.operand (fuel + 1)) c e c.advance

/-! ## Escaped characters -/

namespace Escape

/-- What stands behind a text is escaped if the text ends in an odd number of backslashes: each pair
of them is one escape. -/
def IsEscaped (before : List Char) : Prop :=
  Odd (before.reverse.takeWhile (· == '\\')).length

theorem not_isEscaped_nil : ¬ IsEscaped [] := by
  simp [IsEscaped]

theorem isEscaped_concat {before : List Char} {c : Char} :
    IsEscaped (before ++ [c]) ↔ c = '\\' ∧ ¬ IsEscaped before := by
  unfold IsEscaped
  by_cases hc : c = '\\'
  · simp [hc, Nat.odd_add_one]
  · simp [hc]

/-- A backslash takes the character behind it along. -/
theorem not_isEscaped_escape {before : List Char} (h : ¬ IsEscaped before) (e : Char) :
    ¬ IsEscaped (before ++ ['\\', e]) := by
  rw [← List.singleton_append, ← List.append_assoc, isEscaped_concat, isEscaped_concat]
  simp [h]

theorem not_isEscaped_plain (before : List Char) {c : Char} (hc : c ≠ '\\') :
    ¬ IsEscaped (before ++ [c]) := by
  simp [isEscaped_concat, hc]

namespace Body

variable {quote : Char} {body before : List Char}

theorem unbroken (h : Body quote body) : '\n' ∉ body := by
  induction h with
  | nil => simp
  | plain _ _ newline _ ih => simp [Ne.symm newline, ih]
  | escape newline _ ih => simp [Ne.symm newline, ih]

/-- Behind a text that escapes nothing, a body escapes nothing either. -/
theorem not_isEscaped (h : Body quote body) (hbefore : ¬ IsEscaped before) :
    ¬ IsEscaped (before ++ body) := by
  induction h generalizing before with
  | nil => simpa using hbefore
  | plain _ backslash _ _ ih => simpa using ih (not_isEscaped_plain before backslash)
  | @escape e _ _ _ ih => simpa using ih (not_isEscaped_escape hbefore e)

/-- Every quote inside a body is escaped. -/
theorem isEscaped (h : Body quote body) (hquote : quote ≠ '\\') (hbefore : ¬ IsEscaped before)
    {front back : List Char} (hcut : body = front ++ quote :: back) :
    IsEscaped (before ++ front) := by
  induction h generalizing before front with
  | nil => simp at hcut
  | @plain c body inner backslash _ _ ih =>
      rw [List.cons_eq_append_iff] at hcut
      rcases hcut with ⟨-, hhead⟩ | ⟨front, rfl, hcut⟩
      · exact absurd (List.cons.inj hhead).1.symm inner
      · simpa using ih (not_isEscaped_plain before backslash) hcut
  | @escape e body _ _ ih =>
      rw [List.cons_eq_append_iff] at hcut
      rcases hcut with ⟨-, hhead⟩ | ⟨front, rfl, hcut⟩
      · exact absurd (List.cons.inj hhead).1 hquote
      rw [List.cons_eq_append_iff] at hcut
      rcases hcut with ⟨rfl, -⟩ | ⟨front, rfl, hcut⟩
      · exact isEscaped_concat.2 ⟨rfl, hbefore⟩
      · simpa using ih (not_isEscaped_escape hbefore e) hcut

end Body

end Escape

/-! ## Constants in quotes -/

namespace Literal

open Escape

/-- A lexeme is a body between quotes, the one that is cut out of it. It ends where a quote first
stands that is not escaped. -/
structure Encloses (quote : Char) (lexeme : String) (body : List Char) : Prop where
  whole : lexeme.toList = quote :: (body ++ [quote])
  unbroken : '\n' ∉ lexeme.toList
  cut : Literal.body lexeme = body
  closes : ¬ IsEscaped body
  first : ∀ front back, body = front ++ quote :: back → IsEscaped front

theorem body_of_quoted {quote : Char} {lexeme : String} {body : List Char}
    (h : lexeme.toList = quote :: (body ++ [quote])) (hsize : quote.utf8Size = 1) :
    Literal.body lexeme = body := by
  simp [Literal.body, h, hsize]

theorem Encloses.of_body {quote : Char} {lexeme : String} {body : List Char}
    (h : lexeme.toList = quote :: (body ++ [quote])) (hbody : Body quote body)
    (hquote : quote ∈ ['"', '\'']) : Encloses quote lexeme body := by
  have hplain : quote ≠ '\n' ∧ quote ≠ '\\' ∧ quote.utf8Size = 1 := by
    fin_cases hquote <;> decide
  obtain ⟨hline, hback, hsize⟩ := hplain
  refine ⟨h, ?_, body_of_quoted h hsize, ?_, ?_⟩
  · simp [h, Ne.symm hline, hbody.unbroken]
  · simpa using hbody.not_isEscaped not_isEscaped_nil
  · intro front back hcut
    simpa using hbody.isEscaped hback not_isEscaped_nil hcut

end Literal

/-- No reserved word is a constant. -/
theorem Lexeme.kind_ne_of_mem_reserved : ∀ entry ∈ Kind.reserved,
    entry.2 ≠ .charLiteral ∧ entry.2 ≠ .stringLiteral ∧ entry.2 ≠ .intLiteral := by
  decide

namespace Token

variable {t : Token}

open Escape Parse

/-- A character constant encloses a body that stands for a byte. -/
theorem encloses_char (ht : IsWord t.word) (hkind : t.kind = .charLiteral) :
    ∃ body value, Literal.Encloses '\'' t.lexeme body ∧ decodeByte body = some value := by
  unfold IsWord word at ht
  rw [hkind] at ht
  generalize htext : t.lexeme.toList = text at ht
  cases ht with
  | reserved known => exact absurd rfl (Lexeme.kind_ne_of_mem_reserved _ known).1
  | @char c ascii quote backslash newline =>
      obtain ⟨value, hvalue⟩ :=
        Option.ne_none_iff_exists'.1 ((Lexeme.decodeByte_plain backslash).2 ascii)
      exact ⟨[c], value, .of_body htext (.plain quote backslash newline .nil) (by simp), hvalue⟩
  | @charEscape e known =>
      obtain ⟨value, hvalue⟩ := Option.ne_none_iff_exists'.1 (Lexeme.decodeByte_escape.2 known)
      have hbody : Body '\'' ['\\', e] := .escape (Lexeme.ne_newline_of_mem_escapes known) .nil
      exact ⟨_, value, .of_body htext hbody (by simp), hvalue⟩

/-- A string constant encloses a body that stands for a text. -/
theorem encloses_string (ht : IsWord t.word) (hkind : t.kind = .stringLiteral) :
    ∃ body text, Literal.Encloses '"' t.lexeme body ∧ decodeText body = some text := by
  unfold IsWord word at ht
  rw [hkind] at ht
  generalize htext : t.lexeme.toList = text at ht
  cases ht with
  | reserved known => exact absurd rfl (Lexeme.kind_ne_of_mem_reserved _ known).2.1
  | @string body items =>
      obtain ⟨decoded, hdecoded⟩ :=
        Option.ne_none_iff_exists'.1 ((Lexeme.stringBody_iff items.body).1 items)
      exact ⟨body, decoded, .of_body htext items.body (by simp), hdecoded⟩

/-- A character constant is read as the byte that its body stands for. -/
theorem standsFor_char (hkind : t.kind = .charLiteral) {value : UInt8}
    (hvalue : decodeByte (Literal.body t.lexeme) = some value) :
    t.StandsFor (.char value t.span) := by
  rintro c fuel rfl
  refine .bind (reads_next.2 ⟨rfl, rfl⟩) ?_
  simp only [hkind]
  refine .bind .advance ?_
  rw [Grammar.charValue, hvalue]
  exact .pure _

/-- A string constant is read as the text that its body stands for. -/
theorem standsFor_string (hkind : t.kind = .stringLiteral) {text : List Char}
    (htext : decodeText (Literal.body t.lexeme) = some text) :
    t.StandsFor (.string (String.ofList text) t.span) := by
  rintro c fuel rfl
  refine .bind (reads_next.2 ⟨rfl, rfl⟩) ?_
  simp only [hkind]
  refine .bind .advance ?_
  rw [Grammar.stringText, htext]
  exact .pure _

end Token

/-- The tokens of a scan but for the mark of its end are words. -/
theorem isWord_of_mem_scan {text : String} {t : Token} (ht : t ∈ (scan text).tokens)
    (hend : t.kind ≠ .endOfFile) : IsWord t.word := by
  obtain ⟨tokens, hscan, hwords⟩ := words_of_scan text
  rw [hscan, List.mem_append, List.mem_singleton] at ht
  rcases ht with ht | rfl
  · exact hwords t ht
  · exact absurd rfl hend

/-- **Scanner and parser agree on constants in quotes.** Every such token of a text encloses a body
without a newline, up to the first quote that is not escaped; the body that is cut out of the lexeme
is that one and decodes, and the constant that the token is read as is what it decodes to. -/
theorem quoted_constants_agree (text : String) : ∀ t ∈ (scan text).tokens,
    (t.kind = .charLiteral → ∃ body value, Literal.Encloses '\'' t.lexeme body ∧
      Escape.decodeByte body = some value ∧ t.StandsFor (.char value t.span) ∧
      ∀ table, (Expr.char value t.span).check table = pure ⟨.char value, .char, t.span⟩) ∧
    (t.kind = .stringLiteral → ∃ body decoded, Literal.Encloses '"' t.lexeme body ∧
      Escape.decodeText body = some decoded ∧
      t.StandsFor (.string (String.ofList decoded) t.span) ∧
      ∀ table, (Expr.string (String.ofList decoded) t.span).check table =
        pure ⟨.string (String.ofList decoded), .array .char, t.span⟩) := by
  intro t ht
  constructor
  · intro hkind
    have hword := isWord_of_mem_scan ht (by simp [hkind])
    obtain ⟨body, value, hbody, hvalue⟩ := Token.encloses_char hword hkind
    have hread := Token.standsFor_char hkind (hbody.cut ▸ hvalue)
    exact ⟨body, value, hbody, hvalue, hread, fun table => by rw [Expr.check]; rfl⟩
  · intro hkind
    have hword := isWord_of_mem_scan ht (by simp [hkind])
    obtain ⟨body, decoded, hbody, hdecoded⟩ := Token.encloses_string hword hkind
    have hread := Token.standsFor_string hkind (hbody.cut ▸ hdecoded)
    exact ⟨body, decoded, hbody, hdecoded, hread, fun table => by rw [Expr.check]; rfl⟩

/-- In `'\'' "\"\\"` the character constant is a quote, and the string constant a quote and a
backslash. -/
theorem quoted_constants_agree_escapes :
    let text := "'\\'' \"\\\"\\\\\""
    (∃ t ∈ (scan text).tokens, t.kind = .charLiteral ∧ t.StandsFor (.char 39 ⟨0, 4⟩)) ∧
      ∃ t ∈ (scan text).tokens, t.kind = .stringLiteral ∧ t.StandsFor (.string "\"\\" ⟨5, 6⟩) := by
  intro text
  have hchar : ⟨.charLiteral, "'\\''", ⟨0, 4⟩⟩ ∈ (scan text).tokens := by decide +kernel
  have hstring : ⟨.stringLiteral, "\"\\\"\\\\\"", ⟨5, 6⟩⟩ ∈ (scan text).tokens := by
    decide +kernel
  constructor
  · obtain ⟨body, value, hbody, hvalue, hread, -⟩ := (quoted_constants_agree text _ hchar).1 rfl
    rw [← hbody.cut] at hvalue
    have hquote : Escape.decodeByte (Literal.body "'\\''") = some 39 := by decide +kernel
    obtain rfl := Option.some.inj (hquote.symm.trans hvalue)
    exact ⟨_, hchar, rfl, hread⟩
  · obtain ⟨body, decoded, hbody, hdecoded, hread, -⟩ :=
      (quoted_constants_agree text _ hstring).2 rfl
    rw [← hbody.cut] at hdecoded
    have hboth : Escape.decodeText (Literal.body "\"\\\"\\\\\"") = some ['"', '\\'] := by
      decide +kernel
    obtain rfl := Option.some.inj (hboth.symm.trans hdecoded)
    exact ⟨_, hstring, rfl, hread⟩

end Cmm
