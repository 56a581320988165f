import Cmm.Scan

/-!
# The lexical grammar

What the lexemes of the language are, without a word on how a text is cut into them.

* `IsLexeme` — a text is a lexeme of a kind: a reserved word or an identifier, a number, a constant
  in quotes, a mark.
* `Lexeme.IsComment` — a text is a comment, in front of what follows it.
* `Lexeme.IsMalformed` — what stands where a fault is found, in front of what follows it.
* `Segment.Fits` — a segment is what its piece says, and passes over nothing: neither a longer
  lexeme, nor a comment, nor digits that run on into a word.

Of identifiers nothing is used but which characters of ASCII they may hold: letters and the
underscore, and behind the first also digits.
-/

set_option autoImplicit false

namespace Cmm

/-- The body of a constant: escapes, and characters that neither close nor break it. -/
inductive Escape.Body (quote : Char) : List Char → Prop
  | nil : Body quote []
  | plain {c : Char} {body : List Char} (inner : c ≠ quote) (backslash : c ≠ '\\')
      (newline : c ≠ '\n') (rest : Body quote body) : Body quote (c :: body)
  | escape {e : Char} {body : List Char} (newline : e ≠ '\n') (rest : Body quote body) :
      Body quote ('\\' :: e :: body)

namespace Lexeme

/-- The characters that may follow a backslash. -/
def escapes : List Char := ['n', '0', '\\', '\'', '"']

/-- The body of a string constant: characters of ASCII that stand for themselves, and escapes. -/
inductive StringBody : List Char → Prop
  | nil : StringBody []
  | plain {c : Char} {body : List Char} (ascii : c.val < 128) (quote : c ≠ '"')
      (backslash : c ≠ '\\') (newline : c ≠ '\n') (rest : StringBody body) :
      StringBody (c :: body)
  | escape {e : Char} {body : List Char} (known : e ∈ escapes) (rest : StringBody body) :
      StringBody ('\\' :: e :: body)

/-- The lexemes of each kind. -/
inductive IsLexeme : Kind → List Char → Prop
  | reserved {word : String} {kind : Kind} (known : (word, kind) ∈ Kind.reserved) :
      IsLexeme kind word.toList
  | identifier {c : Char} {cs : List Char} (start : Identifier.isStart c)
      (rest : ∀ d ∈ cs, Identifier.isContinue d)
      (free : ∀ kind, (String.ofList (c :: cs), kind) ∉ Kind.reserved) :
      IsLexeme .identifier (c :: cs)
  | number {c : Char} {cs : List Char} (first : c.isDigit) (rest : ∀ d ∈ cs, d.isDigit) :
      IsLexeme .intLiteral (c :: cs)
  | char {c : Char} (ascii : c.val < 128) (quote : c ≠ '\'') (backslash : c ≠ '\\')
      (newline : c ≠ '\n') : IsLexeme .charLiteral ['\'', c, '\'']
  | charEscape {e : Char} (known : e ∈ escapes) : IsLexeme .charLiteral ['\'', '\\', e, '\'']
  | string {body : List Char} (items : StringBody body) :
      IsLexeme .stringLiteral ('"' :: body ++ ['"'])
  | mark (mark : Punct) : IsLexeme (.punct mark) mark.spelling.toList

/-- A comment, in front of what follows it: a line comment reaches to the end of the line, a block
comment to the first mark that closes it. -/
inductive IsComment : List Char → List Char → Prop
  | line {body after : List Char} (within : '\n' ∉ body)
      (stop : after = [] ∨ after.head? = some '\n') : IsComment ('/' :: '/' :: body) after
  | block {body after : List Char} (within : ¬ ['*', '/'] <:+: body) :
      IsComment ('/' :: '*' :: body ++ ['*', '/']) after

/-- What stands between the quotes of a character constant: one character, or a backslash and the
character it takes along. -/
inductive CharBody : List Char → Prop
  | plain {c : Char} (quote : c ≠ '\'') (backslash : c ≠ '\\') (newline : c ≠ '\n') : CharBody [c]
  | escape (e : Char) : CharBody ['\\', e]

/-- What stands in a text where a fault is found, in front of what follows it. -/
inductive IsMalformed : LexicalFault → List Char → List Char → Prop
  /-- A block comment that is open at the end of the text. -/
  | openComment {body : List Char} (never : ¬ ['*', '/'] <:+: body) :
      IsMalformed .openComment ('/' :: '*' :: body) []
  /-- Digits that run on into a word. -/
  | badNumber {c d : Char} {digits word after : List Char} (first : c.isDigit)
      (rest : ∀ e ∈ digits, e.isDigit) (next : d.isDigit = false)
      (runs : ∀ e ∈ d :: word, Identifier.isContinue e)
      (stop : ∀ e, after.head? = some e → Identifier.isContinue e = false) :
      IsMalformed (.badNumber (String.ofList (c :: digits ++ d :: word)))
        (c :: digits ++ d :: word) after
  | unexpected {c : Char} {after : List Char} (blank : ¬ isBlank c) (string : c ≠ '"')
      (char : c ≠ '\'') : IsMalformed (.unexpected c) [c] after
  /-- A string constant that is open at the end of the line, perhaps behind half an escape. -/
  | openString {body half after : List Char} (items : Escape.Body '"' body)
      (cut : half = [] ∨ half = ['\\']) (stop : after = [] ∨ after.head? = some '\n') :
      IsMalformed .openString ('"' :: body ++ half) after
  | badString {body after : List Char} (items : Escape.Body '"' body) :
      IsMalformed (.badEscape .string) ('"' :: body ++ ['"']) after
  | emptyChar {after : List Char} : IsMalformed .emptyChar ['\'', '\''] after
  /-- An opening quote at the end of the text. -/
  | openQuote : IsMalformed (.openChar false) ['\''] []
  /-- An opening quote at the end of a line. -/
  | openLine {after : List Char} : IsMalformed (.openChar false) ['\'', '\n'] after
  /-- A character constant without a quote behind its body. -/
  | openChar {body after : List Char} (item : CharBody body) (more : after.head? ≠ some '\'') :
      IsMalformed (.openChar true) ('\'' :: body) after
  /-- Half an escape at the end of the text. -/
  | openEscape : IsMalformed (.openChar true) ['\'', '\\'] []
  | badChar {body after : List Char} (item : CharBody body) :
      IsMalformed (.badEscape .char) ('\'' :: body ++ ['\'']) after

/-- A text begins with what opens a comment. -/
def OpensComment (text : List Char) : Prop := ['/', '/'] <+: text ∨ ['/', '*'] <+: text

/-- A text begins with digits that run on into a word. -/
def RunsOn (text : List Char) : Prop :=
  ∃ digits d rest, text = digits ++ d :: rest ∧ digits ≠ [] ∧ (∀ e ∈ digits, e.isDigit) ∧
    d.isDigit = false ∧ Identifier.isContinue d

/-! ## Texts of lexemes -/

theorem IsLexeme.ne_nil {kind : Kind} {text : List Char} (h : IsLexeme kind text) : text ≠ [] := by
  cases h with
  | @reserved word kind known =>
      have : ∀ entry ∈ Kind.reserved, entry.1.toList ≠ [] := by decide
      exact this _ known
  | identifier | number | char | charEscape => exact List.cons_ne_nil _ _
  | string => exact List.cons_ne_nil _ _
  | mark mark => cases mark <;> decide

/-- Neither the end of the text nor malformed text is a lexeme. -/
theorem IsLexeme.kind_ne {kind : Kind} {text : List Char} (h : IsLexeme kind text) :
    kind ≠ .endOfFile ∧ kind ≠ .invalid := by
  cases h with
  | @reserved word kind known =>
      have : ∀ entry ∈ Kind.reserved, entry.2 ≠ .endOfFile ∧ entry.2 ≠ .invalid := by decide
      exact this _ known
  | identifier | number | char | charEscape | string | mark => exact ⟨nofun, nofun⟩

/-! ## Bodies -/

theorem ne_newline_of_mem_escapes {e : Char} (he : e ∈ escapes) : e ≠ '\n' := by
  rintro rfl
  revert he
  decide

theorem StringBody.body {body : List Char} (h : StringBody body) : Escape.Body '"' body := by
  induction h with
  | nil => exact .nil
  | plain _ quote backslash newline _ ih => exact .plain quote backslash newline ih
  | escape known _ ih => exact .escape (ne_newline_of_mem_escapes known) ih

/-! ## Characters -/

/-- The characters that marks begin with. -/
def markStarts : List Char :=
  ['(', ')', '\x7b', '\x7d', '[', ']', ',', ';', '+', '-', '*', '/', '!', '=', '<', '>', '&', '|']

/-- A mark begins neither a word nor a number, and is neither a blank nor a quote. -/
theorem plain_of_mem_markStarts : ∀ c ∈ markStarts,
    ¬ Identifier.isStart c ∧ ¬ c.isDigit ∧ ¬ isBlank c ∧ c ≠ '"' ∧ c ≠ '\'' := by
  have hall : markStarts.all fun c => decide
      (¬ Identifier.isStart c ∧ ¬ c.isDigit ∧ ¬ isBlank c ∧ c ≠ '"' ∧ c ≠ '\'') := by
    decide
  exact fun c hc => of_decide_eq_true (List.all_eq_true.1 hall c hc)

theorem isBlank_iff {c : Char} : isBlank c ↔ c ∈ [' ', '\t', '\r', '\n'] := by
  simp [isBlank, or_assoc]

theorem plain_of_mem_blanks : ∀ c ∈ [' ', '\t', '\r', '\n'],
    ¬ Identifier.isStart c ∧ ¬ c.isDigit := by
  have hall : [' ', '\t', '\r', '\n'].all fun c => decide
      (¬ Identifier.isStart c ∧ ¬ c.isDigit) := by
    decide
  exact fun c hc => of_decide_eq_true (List.all_eq_true.1 hall c hc)

/-- A digit stands inside of words and begins none. -/
theorem word_of_isDigit {c : Char} (hc : c.isDigit) :
    ¬ Identifier.isStart c ∧ Identifier.isContinue c := by
  have hrange : 48 ≤ c.val.toNat ∧ c.val.toNat ≤ 57 := by
    simpa [Char.isDigit, UInt32.le_iff_toNat_le] using hc
  have hascii : c.val < 128 := by
    rw [UInt32.lt_iff_toNat_lt]
    have : (128 : UInt32).toNat = 128 := rfl
    omega
  have hstart : Identifier.isStart c = false := by
    unfold Identifier.isStart
    rw [if_pos hascii]
    have halpha : c.isAlpha = false := by
      show (decide ('A'.val ≤ c.val ∧ c.val ≤ 'Z'.val) ||
        decide ('a'.val ≤ c.val) && decide (c.val ≤ 'z'.val)) = false
      simp only [Bool.or_eq_false_iff, Bool.and_eq_false_iff, decide_eq_false_iff_not,
        UInt32.le_iff_toNat_le]
      have : 'A'.val.toNat = 65 ∧ 'a'.val.toNat = 97 := ⟨rfl, rfl⟩
      omega
    have hscore : (c == '_') = false := by
      rw [beq_eq_false_iff_ne]
      rintro rfl
      cases hc
    rw [halpha, hscore]
    rfl
  constructor
  · rw [hstart]
    decide
  · unfold Identifier.isContinue
    rw [hstart, if_pos hascii]
    exact hc

/-- A digit begins neither a mark nor a blank nor a constant in quotes. -/
theorem plain_of_isDigit {c : Char} (hc : c.isDigit) :
    c ∉ markStarts ∧ ¬ isBlank c ∧ c ≠ '"' ∧ c ≠ '\'' := by
  refine ⟨?_, ?_, ?_, ?_⟩
  · intro hm
    exact (plain_of_mem_markStarts c hm).2.1 hc
  · intro hb
    exact (plain_of_mem_blanks c (isBlank_iff.1 hb)).2 hc
  · rintro rfl
    cases hc
  · rintro rfl
    cases hc

/-- What a word begins with is neither a digit, a mark, a blank nor a quote. -/
theorem plain_of_isStart {c : Char} (hc : Identifier.isStart c) :
    c ∉ markStarts ∧ ¬ isBlank c ∧ c ≠ '"' ∧ c ≠ '\'' ∧ ¬ c.isDigit := by
  refine ⟨?_, ?_, ?_, ?_, ?_⟩
  · intro hm
    exact (plain_of_mem_markStarts c hm).1 hc
  · intro hb
    exact (plain_of_mem_blanks c (isBlank_iff.1 hb)).1 hc
  · rintro rfl
    revert hc
    decide
  · rintro rfl
    revert hc
    decide
  · intro hd
    exact (word_of_isDigit hd).1 hc

end Lexeme

/-- Maximal munch: where a lexeme of `size` characters begins, a token of `found` characters is not
shorter. Only a comment, closed or open, and a number that runs on into a word go before lexemes. -/
def Piece.Attains (found size : Nat) : Piece → Prop
  | .token _ => size ≤ found
  | .comment | .malformed .openComment | .malformed (.badNumber _) => True
  | .blank | .malformed _ => False

namespace Segment

/-- A segment is what its piece says, in front of what follows it. A blank is a whole run. -/
def HasShape (s : Segment) (after : List Char) : Prop :=
  match s.piece with
  | .blank => s.text ≠ [] ∧ (∀ c ∈ s.text, Lexeme.isBlank c) ∧
      ∀ c, after.head? = some c → Lexeme.isBlank c = false
  | .comment => Lexeme.IsComment s.text after
  | .token kind => Lexeme.IsLexeme kind s.text
  | .malformed fault => Lexeme.IsMalformed fault s.text after

/-- A segment is what its piece says, and passes over nothing that begins with it. -/
structure Fits (s : Segment) (after : List Char) : Prop where
  shape : s.HasShape after
  munches : ∀ kind lexeme, Lexeme.IsLexeme kind lexeme → lexeme <+: s.text ++ after →
    s.piece.Attains s.text.length lexeme.length
  /-- Where a comment is opened, there is one, closed or open. -/
  comments : Lexeme.OpensComment (s.text ++ after) →
    s.piece = .comment ∨ s.piece = .malformed .openComment
  /-- Where digits run on into a word, they are malformed with it. -/
  numbers : Lexeme.RunsOn (s.text ++ after) → ∃ lexeme, s.piece = .malformed (.badNumber lexeme)

/-- No segment is empty. -/
theorem Fits.ne_nil {s : Segment} {after : List Char} (h : s.Fits after) : s.text ≠ [] := by
  obtain ⟨piece, text⟩ := s
  have hshape := h.shape
  cases piece with
  | blank => exact hshape.1
  | comment => cases hshape <;> exact List.cons_ne_nil _ _
  | token kind => exact Lexeme.IsLexeme.ne_nil hshape
  | malformed fault => cases hshape <;> exact List.cons_ne_nil _ _

end Segment

end Cmm
