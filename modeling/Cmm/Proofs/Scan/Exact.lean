import Cmm.Proofs.Scan.Stops

/-!
# The lexical grammar leaves no choice

The grammar says what a segment is and what it must not pass over, and nothing about how a text is
gone through. It fixes the first segment all the same: the one that is found at the beginning.

* `Lexeme.pieceAt_of_isLexeme` — a lexeme on its own is one token, of its kind.
* `Lexeme.pieceAt_of_isComment`, `Lexeme.pieceAt_of_isMalformed` — a comment, and what is malformed,
  is found in front of what follows it.
* `Segment.Fits.found` — a segment that fits is the one that is found.
* `Segment.Fits.unique` — a text begins with one segment that fits in front of the rest.
-/

set_option autoImplicit false

namespace Cmm

namespace Lexeme

variable {c : Char} {tail text after : List Char}

/-! ## Lexemes on their own -/

theorem runLength_of_all {p : Char → Bool} {cs : List Char} (h : ∀ d ∈ cs, p d) :
    runLength p cs = cs.length := by
  have hrun := @runLength_run p cs [] h nofun
  rwa [List.append_nil] at hrun

theorem pieceAt_word (hc : Identifier.isStart c) (hrest : ∀ d ∈ tail, Identifier.isContinue d) :
    pieceAt c tail = (.token (.ofWord (String.ofList (c :: tail))), tail.length) := by
  rw [pieceAt_of_isStart hc, wordPiece, runLength_of_all hrest, List.take_length]

theorem pieceAt_number (hc : c.isDigit) (hrest : ∀ d ∈ tail, d.isDigit) :
    pieceAt c tail = (.token .intLiteral, tail.length) := by
  rw [pieceAt_of_isDigit hc, numberPiece, runLength_of_all hrest, List.drop_length]
  rfl

theorem ofWord_of_free {word : String} (free : ∀ kind, (word, kind) ∉ Kind.reserved) :
    Kind.ofWord word = .identifier := by
  have hnone : Kind.reserved.lookup word = none := by
    rw [List.lookup_eq_none_iff]
    intro entry hentry
    have hne : word ≠ entry.1 := by
      rintro rfl
      exact free entry.2 hentry
    simpa using hne
  rw [Kind.ofWord, hnone]
  rfl

theorem CharBody.pieceAt {body : List Char} (h : CharBody body)
    (hdecode : Escape.decodeByte body ≠ none) :
    Lexeme.pieceAt '\'' (body ++ ['\'']) = (.token .charLiteral, (body ++ ['\'']).length) := by
  rw [pieceAt_char, h.charPiece, closedChar_eq hdecode, List.length_append]
  rfl

/-- **A lexeme on its own is one token, and of its kind.** -/
theorem pieceAt_of_isLexeme {kind : Kind} (h : IsLexeme kind text) :
    ∃ c tail, text = c :: tail ∧ pieceAt c tail = (.token kind, tail.length) := by
  cases h with
  | @reserved word kind known =>
      obtain ⟨hstart, hall⟩ := reserved_words _ known
      have hkinds : ∀ entry ∈ Kind.reserved, Kind.ofWord entry.1 = entry.2 := by
        decide
      cases hword : word.toList with
      | nil =>
          rw [hword] at hstart
          cases hstart
      | cons c tail =>
          rw [hword] at hstart hall
          have hfirst : Identifier.isStart c := by simpa using hstart
          have htail : ∀ d ∈ tail, Identifier.isContinue d := List.all_eq_true.1 hall
          have hpiece := pieceAt_word hfirst htail
          have hlexeme : String.ofList (c :: tail) = word := by
            rw [← hword, String.ofList_toList]
          rw [hlexeme, hkinds _ known] at hpiece
          exact ⟨c, tail, rfl, hpiece⟩
  | @identifier c tail start rest free =>
      refine ⟨c, tail, rfl, ?_⟩
      rw [pieceAt_word start rest, ofWord_of_free free]
  | @number c tail first rest => exact ⟨c, tail, rfl, pieceAt_number first rest⟩
  | char ascii quote backslash newline =>
      have hbody : CharBody [_] := .plain quote backslash newline
      exact ⟨_, _, rfl, hbody.pieceAt ((decodeByte_plain backslash).2 ascii)⟩
  | charEscape known =>
      exact ⟨_, _, rfl, (CharBody.escape _).pieceAt (decodeByte_escape.2 known)⟩
  | @string body items =>
      refine ⟨'"', body ++ ['"'], rfl, ?_⟩
      rw [pieceAt_string, stringPiece_of_stringBody items, List.length_append]
      rfl
  | mark mark =>
      cases mark <;> exact ⟨_, _, rfl, rfl⟩

/-- A lexeme has one kind. -/
theorem IsLexeme.kind_unique {kind kind' : Kind} (h : IsLexeme kind text)
    (h' : IsLexeme kind' text) : kind = kind' := by
  obtain ⟨c, tail, rfl, hpiece⟩ := pieceAt_of_isLexeme h
  obtain ⟨c', tail', htext, hpiece'⟩ := pieceAt_of_isLexeme h'
  cases htext
  rw [hpiece] at hpiece'
  cases hpiece'
  rfl

/-! ## Comments -/

/-- A block comment is closed by the first mark that closes one. -/
theorem blockLength?_of_closed {body : List Char} (h : ¬ ['*', '/'] <:+: body)
    (after : List Char) : blockLength? (body ++ '*' :: '/' :: after) = some (body.length + 2) := by
  induction body with
  | nil => rfl
  | cons c body ih =>
      rw [List.infix_cons_iff, not_or] at h
      obtain ⟨hhere, hlater⟩ := h
      rw [List.cons_append, blockLength?, ih hlater]
      · rfl
      · rintro rest rfl hslash
        cases body with
        | nil => cases hslash
        | cons d body =>
            cases hslash
            exact hhere ⟨body, rfl⟩

theorem blockLength?_of_open {body : List Char} (h : ¬ ['*', '/'] <:+: body) :
    blockLength? body = none := by
  cases hfound : blockLength? body with
  | none => rfl
  | some n =>
      obtain ⟨front, rest, rfl, -, -⟩ := of_blockLength? hfound
      exact absurd ⟨front, rest, by simp⟩ h

theorem pieceAt_of_isComment (h : IsComment text after) :
    ∃ c tail, text = c :: tail ∧ pieceAt c (tail ++ after) = (.comment, tail.length) := by
  cases h with
  | @line body _ within stop =>
      refine ⟨'/', '/' :: body, rfl, ?_⟩
      have hall : ∀ d ∈ body, (d != '\n') = true := by
        intro d hd
        rw [bne_iff_ne]
        rintro rfl
        exact within hd
      have hstop : ∀ d, after.head? = some d → (d != '\n') = false := by
        intro d hd
        rcases stop with rfl | hline
        · cases hd
        · rw [hline] at hd
          cases hd
          rfl
      rw [List.cons_append, pieceAt_of_comment rfl, runLength_run hall hstop, Nat.add_comm]
      rfl
  | @block body _ within =>
      refine ⟨'/', '*' :: body ++ ['*', '/'], rfl, ?_⟩
      have hfound : comment? ('*' :: body ++ ['*', '/'] ++ after) =
          some (.comment, 1 + (body.length + 2)) := by
        rw [List.append_assoc, List.cons_append, comment?]
        simp only [List.cons_append, List.nil_append, blockLength?_of_closed within after]
      rw [pieceAt_of_comment hfound]
      simp [Nat.add_comm, Nat.add_left_comm]

/-! ## Malformed text -/

/-- A text begins with no lexeme. -/
def BeginsNone (cs : List Char) : Prop := ∀ kind lexeme, IsLexeme kind lexeme → ¬ lexeme <+: cs

theorem pieceAt_of_openComment {body : List Char} (never : ¬ ['*', '/'] <:+: body) :
    pieceAt '/' ('*' :: body) = (.malformed .openComment, ('*' :: body).length) := by
  have hfound : comment? ('*' :: body) = some (.malformed .openComment, 1 + body.length) := by
    rw [comment?, blockLength?_of_open never]
  rw [pieceAt_of_comment hfound, Nat.add_comm]
  rfl

theorem pieceAt_of_unexpected (blank : ¬ isBlank c) (string : c ≠ '"') (char : c ≠ '\'')
    (hnone : BeginsNone (c :: after)) : pieceAt c after = (.malformed (.unexpected c), 0) := by
  have hfree : c = '/' → comment? after = none := by
    rintro rfl
    exact absurd ⟨after, rfl⟩ (hnone _ _ (.mark .slash))
  have hmark : mark? c after = none := by
    cases hfound : mark? c after with
    | none => rfl
    | some found =>
        obtain ⟨mark, n⟩ := found
        have hspelling := spelling_of_mark? hfound
        have hprefix : mark.spelling.toList <+: c :: after := by
          rw [← hspelling]
          exact List.cons_prefix_cons.2 ⟨rfl, List.take_prefix n after⟩
        exact absurd hprefix (hnone _ _ (.mark mark))
  have hdigit : ¬ c.isDigit := by
    intro hc
    have hlexeme : IsLexeme .intLiteral [c] := .number hc nofun
    exact hnone _ _ hlexeme ⟨after, rfl⟩
  have hstart : ¬ Identifier.isStart c := by
    intro hc
    have hlexeme : IsLexeme (.ofWord (String.ofList [c])) [c] := isLexeme_ofWord rfl hc nofun
    exact hnone _ _ hlexeme ⟨after, rfl⟩
  rw [pieceAt_of_free blank hfree, hmark, plainPiece, if_neg string, if_neg char, if_neg hdigit,
    if_neg hstart]

theorem pieceAt_of_openString {body half : List Char} (items : Escape.Body '"' body)
    (cut : half = [] ∨ half = ['\\']) (stop : after = [] ∨ after.head? = some '\n') :
    pieceAt '"' (body ++ half ++ after) = (.malformed .openString, (body ++ half).length) := by
  have hend : stringReach after = (0, false) := by
    rcases stop with rfl | hline
    · rfl
    · obtain ⟨rest, rfl⟩ := List.head?_eq_some_iff.1 hline
      rw [stringReach]
  have hhalf : stringReach (half ++ after) = (half.length, false) := by
    rcases cut with rfl | rfl
    · exact hend
    · rcases stop with rfl | hline
      · rfl
      · obtain ⟨rest, rfl⟩ := List.head?_eq_some_iff.1 hline
        rfl
  rw [pieceAt_string, stringPiece, List.append_assoc, stringReach_of_body items, hhalf,
    List.length_append]

theorem pieceAt_of_badString {body : List Char} (items : Escape.Body '"' body)
    (hnone : BeginsNone ('"' :: (body ++ ['"'] ++ after))) :
    pieceAt '"' (body ++ ['"'] ++ after) =
      (.malformed (.badEscape .string), (body ++ ['"']).length) := by
  have hdecode : Escape.decodeText body = none := by
    refine Classical.byContradiction fun hsome => ?_
    exact hnone _ _ (.string ((stringBody_iff items).2 hsome)) ⟨after, rfl⟩
  rw [List.append_assoc, List.singleton_append, pieceAt_string, stringPiece,
    stringReach_of_body items, stringReach]
  dsimp only
  rw [Nat.add_sub_cancel, List.take_left, hdecode, List.length_append]
  rfl

theorem pieceAt_of_openChar {body : List Char} (item : CharBody body)
    (more : after.head? ≠ some '\'') :
    pieceAt '\'' (body ++ after) = (.malformed (.openChar true), body.length) := by
  have hmore : ∀ rest, after = '\'' :: rest → False := by
    rintro rest rfl
    exact more rfl
  rw [pieceAt_char]
  cases item with
  | plain quote backslash newline =>
      rw [List.singleton_append, charPiece]
      · rfl
      · exact newline
      · exact quote
      · exact fun _ _ h _ => backslash h
      · exact fun _ _ h _ => backslash h
      · exact fun h _ => backslash h
      · exact hmore
  | escape e =>
      rw [List.cons_append, List.cons_append, List.nil_append, charPiece]
      · rfl
      · exact hmore

theorem pieceAt_of_badChar {body : List Char} (item : CharBody body)
    (hnone : BeginsNone ('\'' :: (body ++ ['\''] ++ after))) :
    pieceAt '\'' (body ++ ['\''] ++ after) =
      (.malformed (.badEscape .char), (body ++ ['\'']).length) := by
  have hdecode : Escape.decodeByte body = none := by
    refine Classical.byContradiction fun hsome => ?_
    exact hnone _ _ (item.isLexeme hsome) ⟨after, rfl⟩
  rw [List.append_assoc, List.singleton_append, pieceAt_char, item.charPiece, closedChar, hdecode,
    List.length_append]
  rfl

/-- Malformed text is found where it stands, if no lexeme begins there; a comment and a number that
are malformed go before lexemes. -/
theorem pieceAt_of_isMalformed {fault : LexicalFault}
    (h : Segment.Fits ⟨.malformed fault, text⟩ after) : ∃ c tail, text = c :: tail ∧
      pieceAt c (tail ++ after) = (.malformed fault, tail.length) := by
  have hnone (hattains : ∀ found size, ¬ Piece.Attains found size (.malformed fault)) :
      BeginsNone (text ++ after) := by
    intro kind lexeme hlexeme hp
    exact hattains _ _ (h.munches kind lexeme hlexeme hp)
  have hshape : IsMalformed fault text after := h.shape
  cases hshape with
  | openComment never =>
      refine ⟨_, _, rfl, ?_⟩
      rw [List.append_nil, pieceAt_of_openComment never]
  | @badNumber c d digits word _ first rest next runs stop =>
      refine ⟨c, digits ++ d :: word, rfl, ?_⟩
      rw [pieceAt_of_isDigit first, List.append_assoc, numberPiece_of_runs rest next runs stop]
  | unexpected blank string char =>
      exact ⟨_, [], rfl, pieceAt_of_unexpected blank string char (hnone fun _ _ h => h)⟩
  | openString items cut stop => exact ⟨_, _, rfl, pieceAt_of_openString items cut stop⟩
  | badString items =>
      exact ⟨_, _, rfl, pieceAt_of_badString items (hnone fun _ _ h => h)⟩
  | emptyChar | openQuote | openLine | openEscape => exact ⟨_, _, rfl, rfl⟩
  | openChar item more => exact ⟨_, _, rfl, pieceAt_of_openChar item more⟩
  | badChar item => exact ⟨_, _, rfl, pieceAt_of_badChar item (hnone fun _ _ h => h)⟩

/-! ## What goes before lexemes -/

theorem OpensComment.append (h : OpensComment text) (after : List Char) :
    OpensComment (text ++ after) :=
  h.imp (·.trans (List.prefix_append text after)) (·.trans (List.prefix_append text after))

theorem IsComment.opensComment (h : IsComment text after) : OpensComment text := by
  cases h with
  | line => exact .inl ⟨_, rfl⟩
  | block => exact .inr ⟨_, rfl⟩

theorem IsMalformed.opensComment (h : IsMalformed .openComment text after) :
    OpensComment text := by
  cases h with
  | openComment => exact .inr ⟨_, rfl⟩

theorem IsMalformed.runsOn {lexeme : String} (h : IsMalformed (.badNumber lexeme) text after) :
    RunsOn (text ++ after) := by
  cases h with
  | @badNumber c d digits word _ first rest next runs stop =>
      exact ⟨c :: digits, d, word ++ after, by simp, List.cons_ne_nil _ _,
        List.forall_mem_cons.2 ⟨first, rest⟩, next, runs d List.mem_cons_self⟩

end Lexeme

/-! ## Segments -/

namespace Segment

open Lexeme

variable {s t : Segment} {after behind cs : List Char} {c : Char}

/-- Where a token fits, so does nothing but a token. -/
theorem Fits.token_of_token {kind : Kind} (h : s.Fits after) (hs : s.piece = .token kind)
    (h' : t.Fits behind) (heq : s.text ++ after = t.text ++ behind) :
    ∃ kind', t.piece = .token kind' := by
  have hlexeme : IsLexeme kind s.text := by
    have := h.shape
    rwa [HasShape, hs] at this
  have hattains := h'.munches kind s.text hlexeme ⟨after, heq⟩
  have hcomment : ¬ OpensComment (t.text ++ behind) := by
    intro hopens
    have := h.comments (heq ▸ hopens)
    simp [hs] at this
  have hnumber : ¬ RunsOn (t.text ++ behind) := by
    intro hruns
    have := h.numbers (heq ▸ hruns)
    simp [hs] at this
  obtain ⟨piece, text⟩ := t
  have hshape := h'.shape
  cases piece with
  | token kind' => exact ⟨kind', rfl⟩
  | blank => exact hattains.elim
  | comment => exact absurd ((IsComment.opensComment hshape).append behind) hcomment
  | malformed fault =>
      cases fault with
      | openComment => exact absurd ((IsMalformed.opensComment hshape).append behind) hcomment
      | badNumber lexeme => exact absurd (IsMalformed.runsOn hshape) hnumber
      | _ => exact hattains.elim

/-- One token fits: of two, neither is longer, and a lexeme has one kind. -/
theorem Fits.unique_token {kind : Kind} (h : s.Fits after) (hs : s.piece = .token kind)
    (h' : t.Fits behind) (heq : s.text ++ after = t.text ++ behind) : s = t := by
  obtain ⟨kind', ht⟩ := h.token_of_token hs h' heq
  obtain ⟨piece, text⟩ := s
  obtain ⟨piece', text'⟩ := t
  obtain rfl : piece = .token kind := hs
  obtain rfl : piece' = .token kind' := ht
  have hlexeme : IsLexeme kind text := h.shape
  have hlexeme' : IsLexeme kind' text' := h'.shape
  have hle : text'.length ≤ text.length := h.munches kind' text' hlexeme' ⟨behind, heq.symm⟩
  have hge : text.length ≤ text'.length := h'.munches kind text hlexeme ⟨after, heq⟩
  obtain ⟨rfl, -⟩ := List.append_inj heq (Nat.le_antisymm hge hle)
  rw [hlexeme.kind_unique hlexeme']

/-- **A segment that fits is the one that is found** at the beginning of the text. -/
theorem Fits.found (h : s.Fits after) (htext : s.text ++ after = c :: cs) :
    s = ⟨(pieceAt c cs).1, c :: cs.take (pieceAt c cs).2⟩ := by
  have hfits := fits_pieceAt c cs
  have hwhole : c :: cs.take (pieceAt c cs).2 ++ cs.drop (pieceAt c cs).2 = c :: cs := by
    rw [List.cons_append, List.take_append_drop]
  -- What is found with the rest of the text is all that is taken.
  have hfound {tail : List Char} (hs : s.text = c :: tail)
      (hpiece : pieceAt c (tail ++ after) = (s.piece, tail.length)) :
      s = ⟨(pieceAt c cs).1, c :: cs.take (pieceAt c cs).2⟩ := by
    rw [hs, List.cons_append, List.cons.injEq] at htext
    rw [← htext.2, hpiece, List.take_left, ← hs]
  obtain ⟨piece, text⟩ := s
  have hshape := h.shape
  cases piece with
  | token kind => exact h.unique_token rfl hfits (htext.trans hwhole.symm)
  | blank =>
      obtain ⟨hne, hall, hstop⟩ := hshape
      obtain ⟨d, tail, rfl⟩ := List.exists_cons_of_ne_nil hne
      cases htext
      obtain ⟨hblank, htail⟩ := List.forall_mem_cons.1 hall
      refine hfound rfl ?_
      rw [pieceAt, if_pos hblank, runLength_run htail hstop]
  | comment =>
      obtain ⟨d, tail, rfl, hpiece⟩ := pieceAt_of_isComment hshape
      cases htext
      exact hfound rfl hpiece
  | malformed fault =>
      obtain ⟨d, tail, rfl, hpiece⟩ := pieceAt_of_isMalformed h
      cases htext
      exact hfound rfl hpiece

/-- **A text begins with one segment that fits** in front of the rest. -/
theorem Fits.unique (h : s.Fits after) (h' : t.Fits behind)
    (heq : s.text ++ after = t.text ++ behind) : s = t ∧ after = behind := by
  obtain ⟨c, tail, hs⟩ := List.exists_cons_of_ne_nil h.ne_nil
  have htext : s.text ++ after = c :: (tail ++ after) := by rw [hs, List.cons_append]
  have hsame : s = t := (h.found htext).trans (h'.found (heq.symm.trans htext)).symm
  subst hsame
  exact ⟨rfl, List.append_cancel_left heq⟩

end Segment

end Cmm
