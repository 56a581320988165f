import Cmm.Proofs.Decoding
import Cmm.Proofs.Scan.Lexemes

/-!
# Pieces follow the lexical grammar

Each function that finds a piece is covered twice: what it finds has the shape of that piece, and
where a lexeme begins it finds a token that is not shorter.

* `Lexeme.shape_pieceAt` — a piece is what it says.
* `Lexeme.attains_pieceAt` — maximal munch.
* `Lexeme.pieceAt_of_opensComment`, `Lexeme.pieceAt_of_runsOn` — a comment, and digits that run on
  into a word, are found where they begin.
* `Lexeme.fits_pieceAt` — all of it.
-/

set_option autoImplicit false

namespace Cmm

theorem Piece.Attains.of_le {piece : Piece} {found found' size : Nat}
    (h : piece.Attains found size) (hle : size ≤ found → size ≤ found') :
    piece.Attains found' size := by
  cases piece with
  | blank => exact h
  | comment => exact trivial
  | token kind => exact hle h
  | malformed fault => cases fault <;> exact h

namespace Lexeme

variable {c : Char} {cs tail : List Char} {n : Nat}

/-! ## Runs -/

section Runs

variable {p : Char → Bool}

theorem take_runLength (p : Char → Bool) (cs : List Char) :
    cs.take (runLength p cs) = cs.takeWhile p :=
  (List.prefix_iff_eq_take.1 (List.takeWhile_prefix p)).symm

theorem drop_runLength (p : Char → Bool) (cs : List Char) :
    cs.drop (runLength p cs) = cs.dropWhile p := by
  have hcut : cs.take (runLength p cs) ++ cs.drop (runLength p cs) =
      cs.takeWhile p ++ cs.dropWhile p := by
    rw [List.take_append_drop, List.takeWhile_append_dropWhile]
  rw [take_runLength] at hcut
  exact List.append_cancel_left hcut

theorem forall_mem_take_runLength {d : Char} (hd : d ∈ cs.take (runLength p cs)) : p d := by
  rw [take_runLength] at hd
  exact List.all_eq_true.1 List.all_takeWhile d hd

theorem head?_drop_runLength {d : Char} (hd : (cs.drop (runLength p cs)).head? = some d) :
    p d = false := by
  rw [drop_runLength] at hd
  have := List.head?_dropWhile_not p cs
  rw [hd] at this
  simpa using this

/-- A run reaches to the first character that does not satisfy the predicate. -/
theorem runLength_run {run after : List Char} (all : ∀ d ∈ run, p d)
    (stop : ∀ d, after.head? = some d → p d = false) : runLength p (run ++ after) = run.length := by
  unfold runLength
  rw [List.takeWhile_append_of_pos all, List.length_append]
  cases after with
  | nil => rfl
  | cons d rest =>
      rw [List.takeWhile_cons_of_neg (by simp [stop d rfl]), List.length_nil, Nat.add_zero]

/-- A run is as long as any start of the text that satisfies the predicate throughout. -/
theorem length_le_runLength (hp : tail <+: cs) (all : ∀ d ∈ tail, p d) :
    tail.length ≤ runLength p cs := by
  obtain ⟨rest, rfl⟩ := hp
  unfold runLength
  rw [List.takeWhile_append_of_pos all, List.length_append]
  omega

end Runs

/-! ## Marks -/

theorem mark?_of_not_mem (hm : c ∉ markStarts) : mark? c cs = none := by
  unfold mark?
  split <;> first | rfl | exact absurd (by decide) hm

/-- A mark is spelled as it stands in the text. -/
theorem spelling_of_mark? {mark : Punct} (h : mark? c cs = some (mark, n)) :
    c :: cs.take n = mark.spelling.toList := by
  have hhead : ∀ {d : Char}, cs.head? = some d → cs.take 1 = [d] := by
    intro d hd
    cases cs with
    | nil => cases hd
    | cons e rest =>
        cases hd
        rfl
  unfold mark? at h
  dsimp only at h
  split at h
  all_goals
    first
      | cases h <;> rfl
      | split at h
        · rename_i hd
          cases h
          rw [hhead hd]
          rfl
        · cases h <;> rfl

/-- Where a text begins with the spelling of a mark, it has a mark that is not shorter. -/
theorem mark?_of_spelling {mark : Punct} (h : mark.spelling.toList = c :: tail)
    (hp : tail <+: cs) : ∃ mark' n, mark? c cs = some (mark', n) ∧ tail.length ≤ n := by
  have hhead : ∀ {d : Char}, [d] <+: cs → cs.head? = some d := by
    rintro d ⟨rest, rfl⟩
    rfl
  cases mark
  all_goals
    simp only [Punct.spelling, String.reduceToList, List.cons.injEq] at h
    obtain ⟨rfl, rfl⟩ := h
    first
      | exact ⟨_, _, rfl, Nat.le_refl _⟩
      | exact ⟨_, _, by rw [mark?, hhead hp]; rfl, Nat.le_refl _⟩
      | by_cases hd : cs.head? = some '='
        · exact ⟨_, _, if_pos hd, Nat.zero_le _⟩
        · exact ⟨_, _, if_neg hd, Nat.zero_le _⟩

/-! ## Constants in quotes -/

theorem meaning_ne_none_iff {e : Char} : Escape.meaning e ≠ none ↔ e ∈ escapes := by
  unfold Escape.meaning escapes
  split <;> simp_all

theorem stringReach_plain (hquote : c ≠ '"') (hline : c ≠ '\n') (hback : c ≠ '\\') :
    stringReach (c :: cs) = ((stringReach cs).1 + 1, (stringReach cs).2) := by
  rw [stringReach]
  · exact hquote
  · exact hline
  · exact fun h _ => hback h
  · exact fun _ _ h _ => hback h

theorem stringReach_escape {e : Char} (hline : e ≠ '\n') :
    stringReach ('\\' :: e :: cs) = ((stringReach cs).1 + 2, (stringReach cs).2) := by
  rw [stringReach, if_neg hline]

theorem decodeText_plain (hback : c ≠ '\\') : Escape.decodeText (c :: cs) ≠ none ↔
    c.val < 128 ∧ Escape.decodeText cs ≠ none := by
  rw [Escape.decodeText_cons hback]
  by_cases hascii : c.val < 128 <;> simp [hascii]

theorem decodeText_escape {e : Char} : Escape.decodeText ('\\' :: e :: cs) ≠ none ↔
    Escape.meaning e ≠ none ∧ Escape.decodeText cs ≠ none := by
  rw [Escape.decodeText_backslash]
  cases Escape.meaning e <;> cases Escape.decodeText cs <;> simp

/-- A closed string constant ends at the quote behind its body. -/
theorem of_stringReach_closed (h : stringReach cs = (n, true)) :
    ∃ body rest, cs = body ++ '"' :: rest ∧ n = body.length + 1 ∧ Escape.Body '"' body := by
  induction cs using stringReach.induct generalizing n with
  | case1 | case3 | case4 => cases h
  | case2 rest =>
      cases h
      exact ⟨[], rest, rfl, rfl, .nil⟩
  | case5 rest => simp [stringReach] at h
  | case6 e rest he m closed hm ih =>
      rw [stringReach_escape he, hm] at h
      cases h
      obtain ⟨body, after, rfl, rfl, hbody⟩ := ih hm
      exact ⟨'\\' :: e :: body, after, rfl, rfl, .escape he hbody⟩
  | case7 c rest hquote hline hend hescape m closed hm ih =>
      have hback := Escape.ne_backslash hend hescape
      rw [stringReach_plain hquote hline hback, hm] at h
      cases h
      obtain ⟨body, after, rfl, rfl, hbody⟩ := ih hm
      exact ⟨c :: body, after, rfl, rfl, .plain hquote hback hline hbody⟩

/-- An open string constant reaches to the end of its line: over a body, and over half an escape if
the line ends in one. -/
theorem of_stringReach_open (h : stringReach cs = (n, false)) :
    ∃ body half after, cs = body ++ half ++ after ∧ n = (body ++ half).length ∧
      Escape.Body '"' body ∧ (half = [] ∨ half = ['\\']) ∧
      (after = [] ∨ after.head? = some '\n') := by
  induction cs using stringReach.induct generalizing n with
  | case1 =>
      cases h
      exact ⟨[], [], [], rfl, rfl, .nil, .inl rfl, .inl rfl⟩
  | case2 => cases h
  | case3 rest =>
      cases h
      exact ⟨[], [], _, rfl, rfl, .nil, .inl rfl, .inr rfl⟩
  | case4 =>
      cases h
      exact ⟨[], ['\\'], [], rfl, rfl, .nil, .inr rfl, .inl rfl⟩
  | case5 rest =>
      rw [stringReach, if_pos rfl] at h
      cases h
      exact ⟨[], ['\\'], '\n' :: rest, rfl, rfl, .nil, .inr rfl, .inr rfl⟩
  | case6 e rest he m closed hm ih =>
      rw [stringReach_escape he, hm] at h
      cases h
      obtain ⟨body, half, after, rfl, rfl, hbody, hhalf, hstop⟩ := ih hm
      exact ⟨'\\' :: e :: body, half, after, rfl, rfl, .escape he hbody, hhalf, hstop⟩
  | case7 c rest hquote hline hend hescape m closed hm ih =>
      have hback := Escape.ne_backslash hend hescape
      rw [stringReach_plain hquote hline hback, hm] at h
      cases h
      obtain ⟨body, half, after, rfl, rfl, hbody, hhalf, hstop⟩ := ih hm
      exact ⟨c :: body, half, after, rfl, rfl, .plain hquote hback hline hbody, hhalf, hstop⟩

/-- A body is reached over, whatever follows it. -/
theorem stringReach_of_body {body : List Char} (hb : Escape.Body '"' body) (rest : List Char) :
    stringReach (body ++ rest) = (body.length + (stringReach rest).1, (stringReach rest).2) := by
  induction hb with
  | nil => rw [List.nil_append, List.length_nil, Nat.zero_add]
  | plain inner backslash newline _ ih =>
      rw [List.cons_append, stringReach_plain inner newline backslash, ih, List.length_cons,
        Nat.add_right_comm]
  | escape newline _ ih =>
      rw [List.cons_append, List.cons_append, stringReach_escape newline, ih, List.length_cons,
        List.length_cons, Nat.add_right_comm]

/-- A body is one of the grammar exactly if it can be decoded. -/
theorem stringBody_iff {body : List Char} (hb : Escape.Body '"' body) :
    StringBody body ↔ Escape.decodeText body ≠ none := by
  constructor
  · intro h
    clear hb
    induction h with
    | nil => simp [Escape.decodeText]
    | plain ascii _ backslash _ _ ih => exact (decodeText_plain backslash).2 ⟨ascii, ih⟩
    | escape known _ ih => exact decodeText_escape.2 ⟨meaning_ne_none_iff.2 known, ih⟩
  · intro h
    induction hb with
    | nil => exact .nil
    | plain inner backslash newline _ ih =>
        obtain ⟨hascii, hrest⟩ := (decodeText_plain backslash).1 h
        exact .plain hascii inner backslash newline (ih hrest)
    | escape newline _ ih =>
        obtain ⟨hmeaning, hrest⟩ := decodeText_escape.1 h
        exact .escape (meaning_ne_none_iff.1 hmeaning) (ih hrest)

/-- A string constant of the grammar is found, whatever follows it. -/
theorem stringPiece_of_stringBody {body : List Char} (hb : StringBody body) (rest : List Char) :
    stringPiece (body ++ '"' :: rest) = (.token .stringLiteral, body.length + 1) := by
  obtain ⟨text, hdecode⟩ := Option.ne_none_iff_exists'.1 ((stringBody_iff hb.body).1 hb)
  rw [stringPiece, stringReach_of_body hb.body, stringReach]
  dsimp only
  rw [Nat.add_sub_cancel, List.take_left, hdecode]

/-! ## Comments -/

theorem of_blockLength? (h : blockLength? cs = some n) : ∃ body rest,
    cs = body ++ '*' :: '/' :: rest ∧ n = body.length + 2 ∧ ¬ ['*', '/'] <:+: body := by
  induction cs using blockLength?.induct generalizing n with
  | case1 => cases h
  | case2 rest =>
      cases h
      exact ⟨[], rest, rfl, rfl, by simp⟩
  | case3 c cs hopen ih =>
      rw [blockLength?] at h
      · obtain ⟨m, hm, rfl⟩ := Option.map_eq_some_iff.1 h
        obtain ⟨body, rest, rfl, rfl, hnone⟩ := ih hm
        refine ⟨c :: body, rest, rfl, rfl, ?_⟩
        rw [List.infix_cons_iff]
        rintro (hstart | hinfix)
        · obtain ⟨more, hmore⟩ := hstart
          cases hmore
          exact hopen _ rfl rfl
        · exact hnone hinfix
      · exact hopen

theorem not_infix_of_blockLength? (h : blockLength? cs = none) : ¬ ['*', '/'] <:+: cs := by
  induction cs using blockLength?.induct with
  | case1 => simp
  | case2 rest => cases h
  | case3 c cs hopen ih =>
      rw [blockLength?] at h
      · rw [Option.map_eq_none_iff] at h
        rw [List.infix_cons_iff]
        rintro (⟨more, hmore⟩ | hinfix)
        · cases hmore
          exact hopen _ rfl rfl
        · exact ih h hinfix
      · exact hopen

theorem shape_comment {found : Piece × Nat} (h : comment? cs = some found) :
    Segment.HasShape ⟨found.1, '/' :: cs.take found.2⟩ (cs.drop found.2) := by
  unfold comment? at h
  split at h
  · rename_i rest
    cases h
    show IsComment ('/' :: List.take _ _) _
    rw [Nat.add_comm, List.take_succ_cons, List.drop_succ_cons]
    refine .line ?_ ?_
    · intro hmem
      have := forall_mem_take_runLength hmem
      simp at this
    · cases hafter : rest.drop (runLength (· != '\n') rest) with
      | nil => exact .inl rfl
      | cons d after =>
          have hstop := @head?_drop_runLength rest (· != '\n') d
          rw [hafter] at hstop
          right
          simpa using hstop rfl
  · split at h
    · rename_i rest m hm
      cases h
      obtain ⟨body, after, rfl, rfl, hnone⟩ := of_blockLength? hm
      have htext : List.take (body.length + 2) (body ++ '*' :: '/' :: after) =
          body ++ ['*', '/'] := by
        rw [List.take_length_add_append]
        rfl
      show IsComment ('/' :: List.take _ _) _
      rw [Nat.add_comm, List.take_succ_cons, htext]
      exact .block hnone
    · rename_i rest hnone
      cases h
      show IsMalformed .openComment ('/' :: List.take _ _) _
      rw [Nat.add_comm, List.take_succ_cons, List.drop_succ_cons, List.take_length,
        List.drop_length]
      exact .openComment (not_infix_of_blockLength? hnone)
  · cases h

/-- What is found where a comment begins is one, closed or open. -/
theorem piece_of_comment? {found : Piece × Nat} (h : comment? cs = some found) :
    found.1 = .comment ∨ found.1 = .malformed .openComment := by
  unfold comment? at h
  split at h
  · cases h
    exact .inl rfl
  · split at h <;> cases h
    · exact .inl rfl
    · exact .inr rfl
  · cases h

/-- Where a comment begins, it goes before lexemes. -/
theorem attains_comment {found : Piece × Nat} (h : comment? cs = some found) (m size : Nat) :
    found.1.Attains m size := by
  rcases piece_of_comment? h with hpiece | hpiece <;> rw [hpiece] <;> exact trivial

/-! ## Constants -/

theorem shape_string (cs : List Char) :
    Segment.HasShape ⟨(stringPiece cs).1, '"' :: cs.take (stringPiece cs).2⟩
      (cs.drop (stringPiece cs).2) := by
  unfold stringPiece
  split
  · rename_i n hclosed
    obtain ⟨body, rest, rfl, rfl, hbody⟩ := of_stringReach_closed hclosed
    have htext : List.take (body.length + 1) (body ++ '"' :: rest) = body ++ ['"'] := by
      rw [List.take_length_add_append]
      rfl
    have hinner : List.take (body.length + 1 - 1) (body ++ '"' :: rest) = body := by
      rw [Nat.add_sub_cancel, List.take_left]
    rw [hinner]
    split
    · rename_i text hdecode
      show IsLexeme .stringLiteral ('"' :: List.take (body.length + 1) _)
      rw [htext]
      exact .string ((stringBody_iff hbody).2 (by rw [hdecode]; exact Option.some_ne_none text))
    · show IsMalformed _ ('"' :: List.take (body.length + 1) _) _
      rw [htext]
      exact .badString hbody
  · rename_i n hopen
    obtain ⟨body, half, after, rfl, rfl, hbody, hhalf, hstop⟩ := of_stringReach_open hopen
    show IsMalformed .openString ('"' :: List.take _ _) (List.drop _ _)
    rw [List.take_left, List.drop_left]
    exact .openString hbody hhalf hstop

theorem decodeByte_plain (hback : c ≠ '\\') :
    Escape.decodeByte [c] ≠ none ↔ c.val < 128 := by
  have hplain : (c != '\\') = true := bne_iff_ne.2 hback
  rw [Escape.decodeByte, Escape.isAscii, hplain, Bool.and_true]
  by_cases hascii : c.val < 128
  · rw [if_pos (decide_eq_true hascii)]
    exact iff_of_true (Option.some_ne_none _) hascii
  · rw [decide_eq_false hascii]
    exact iff_of_false (fun h => h rfl) hascii

theorem decodeByte_escape {e : Char} : Escape.decodeByte ['\\', e] ≠ none ↔ e ∈ escapes := by
  rw [Escape.decodeByte, ← meaning_ne_none_iff]
  simp

/-- A body that can be decoded makes a constant. -/
theorem CharBody.isLexeme {body : List Char} (h : CharBody body)
    (hdecode : Escape.decodeByte body ≠ none) :
    IsLexeme .charLiteral ('\'' :: body ++ ['\'']) := by
  cases h with
  | plain quote backslash newline =>
      exact .char ((decodeByte_plain backslash).1 hdecode) quote backslash newline
  | escape e => exact .charEscape (decodeByte_escape.1 hdecode)

theorem shape_closedChar {body : List Char} (after : List Char) (item : CharBody body) :
    Segment.HasShape ⟨closedChar body, '\'' :: body ++ ['\'']⟩ after := by
  unfold closedChar
  split
  · rename_i hdecode
    exact item.isLexeme (by simp [hdecode])
  · exact IsMalformed.badChar item

theorem shape_char (cs : List Char) :
    Segment.HasShape ⟨(charPiece cs).1, '\'' :: cs.take (charPiece cs).2⟩
      (cs.drop (charPiece cs).2) := by
  have hopen {after : List Char} (h : ∀ rest, after ≠ '\'' :: rest) : after.head? ≠ some '\'' := by
    intro hhead
    obtain ⟨rest, rfl⟩ := List.head?_eq_some_iff.1 hhead
    exact h rest rfl
  unfold charPiece
  split
  · exact IsMalformed.openQuote
  · exact IsMalformed.openLine
  · exact IsMalformed.emptyChar
  · rename_i e rest
    exact shape_closedChar _ (.escape e)
  · rename_i e rest hnone
    exact IsMalformed.openChar (.escape e) (hopen hnone)
  · exact IsMalformed.openEscape
  · rename_i c rest hline hquote hescape hback
    exact shape_closedChar _ (.plain hquote hback hline)
  · rename_i c rest hline hquote _ hescape hend hnone
    have hback := Escape.ne_backslash hend hescape
    exact IsMalformed.openChar (.plain hquote hback hline) (hopen hnone)

theorem shape_number (hc : c.isDigit) (cs : List Char) :
    Segment.HasShape ⟨(numberPiece c cs).1, c :: cs.take (numberPiece c cs).2⟩
      (cs.drop (numberPiece c cs).2) := by
  have hdigits : ∀ d ∈ cs.take (runLength Char.isDigit cs), d.isDigit :=
    fun d hd => forall_mem_take_runLength hd
  unfold numberPiece
  dsimp only
  split
  · exact IsLexeme.number hc hdigits
  · rename_i hword
    show IsMalformed _ (c :: List.take _ _) _
    rw [List.take_add, ← List.drop_drop]
    cases hrest : cs.drop (runLength Char.isDigit cs) with
    | nil =>
        rw [hrest] at hword
        exact absurd rfl hword
    | cons d rest =>
        rw [hrest] at hword
        have hruns : Identifier.isContinue d := by
          refine Classical.byContradiction fun hd => hword ?_
          unfold runLength
          rw [List.takeWhile_cons_of_neg hd]
          rfl
        have hnext : d.isDigit = false := head?_drop_runLength (by rw [hrest]; rfl)
        have hlength : runLength Identifier.isContinue (d :: rest) =
            runLength Identifier.isContinue rest + 1 := by
          unfold runLength
          rw [List.takeWhile_cons_of_pos hruns]
          rfl
        rw [hlength, List.take_succ_cons, List.drop_succ_cons]
        refine .badNumber hc hdigits hnext ?_ fun e he => head?_drop_runLength he
        intro e he
        rcases List.mem_cons.1 he with rfl | hmem
        · exact hruns
        · exact forall_mem_take_runLength hmem

/-- A word is a reserved word or an identifier. -/
theorem isLexeme_ofWord {word : List Char} (hfirst : c :: cs = word) (hc : Identifier.isStart c)
    (hrest : ∀ d ∈ cs, Identifier.isContinue d) :
    IsLexeme (.ofWord (String.ofList word)) word := by
  subst hfirst
  unfold Kind.ofWord
  cases hlookup : Kind.reserved.lookup (String.ofList (c :: cs)) with
  | some kind =>
      obtain ⟨before, after, hsplit, -⟩ := List.lookup_eq_some_iff.1 hlookup
      have hmem : (String.ofList (c :: cs), kind) ∈ Kind.reserved := by
        rw [hsplit]
        simp
      have := IsLexeme.reserved hmem
      rwa [String.toList_ofList] at this
  | none =>
      refine .identifier hc hrest fun kind hmem => ?_
      have := List.lookup_eq_none_iff.1 hlookup _ hmem
      simp at this

theorem shape_plain (hblank : ¬ isBlank c) (cs : List Char) :
    Segment.HasShape ⟨(plainPiece c cs).1, c :: cs.take (plainPiece c cs).2⟩
      (cs.drop (plainPiece c cs).2) := by
  unfold plainPiece
  split
  · rename_i hquote
    subst hquote
    exact shape_string cs
  · split
    · rename_i hquote
      subst hquote
      exact shape_char cs
    · split
      · rename_i hdigit
        exact shape_number hdigit cs
      · split
        · rename_i hstart
          exact isLexeme_ofWord rfl hstart fun d hd => forall_mem_take_runLength hd
        · rename_i hstring hchar _ _
          exact IsMalformed.unexpected hblank hstring hchar

/-- **A piece is what it says.** -/
theorem shape_pieceAt (c : Char) (cs : List Char) :
    Segment.HasShape ⟨(pieceAt c cs).1, c :: cs.take (pieceAt c cs).2⟩
      (cs.drop (pieceAt c cs).2) := by
  unfold pieceAt
  split
  · rename_i hblank
    refine ⟨List.cons_ne_nil _ _, ?_, fun d hd => head?_drop_runLength hd⟩
    intro d hd
    rcases List.mem_cons.1 hd with rfl | hmem
    · exact hblank
    · exact forall_mem_take_runLength hmem
  · rename_i hblank
    split
    · rename_i found hcomment
      split at hcomment
      · rename_i hslash
        subst hslash
        exact shape_comment hcomment
      · cases hcomment
    · split
      · rename_i mark n hmark
        show IsLexeme (.punct mark) (c :: cs.take n)
        rw [spelling_of_mark? hmark]
        exact .mark mark
      · exact shape_plain hblank cs

/-! ## Maximal munch -/

/-- A word begins with what a mark cannot. -/
theorem pieceAt_eq_plainPiece (hm : c ∉ markStarts) (hb : ¬ isBlank c) :
    pieceAt c cs = plainPiece c cs := by
  have hslash : c ≠ '/' := by
    rintro rfl
    exact hm (by decide)
  unfold pieceAt
  rw [if_neg hb, if_neg hslash, mark?_of_not_mem hm]

theorem pieceAt_of_isStart (hc : Identifier.isStart c) : pieceAt c cs = wordPiece c cs := by
  obtain ⟨hm, hb, hstring, hchar, hdigit⟩ := plain_of_isStart hc
  rw [pieceAt_eq_plainPiece hm hb, plainPiece, if_neg hstring, if_neg hchar, if_neg hdigit,
    if_pos hc]

theorem pieceAt_of_isDigit (hc : c.isDigit) : pieceAt c cs = numberPiece c cs := by
  obtain ⟨hm, hb, hstring, hchar⟩ := plain_of_isDigit hc
  rw [pieceAt_eq_plainPiece hm hb, plainPiece, if_neg hstring, if_neg hchar, if_pos hc]

theorem pieceAt_string (cs : List Char) : pieceAt '"' cs = stringPiece cs := by
  rw [pieceAt_eq_plainPiece (by decide) (by decide), plainPiece, if_pos rfl]

theorem pieceAt_char (cs : List Char) : pieceAt '\'' cs = charPiece cs := by
  rw [pieceAt_eq_plainPiece (by decide) (by decide), plainPiece, if_neg (by decide), if_pos rfl]

theorem pieceAt_of_comment {found : Piece × Nat} (h : comment? cs = some found) :
    pieceAt '/' cs = found := by
  unfold pieceAt
  rw [if_neg (by decide), if_pos rfl, h]

theorem attains_mark {mark : Punct} (h : mark.spelling.toList = c :: tail) (hp : tail <+: cs) :
    (pieceAt c cs).1.Attains ((pieceAt c cs).2 + 1) (tail.length + 1) := by
  obtain ⟨mark', n, hmark, hlength⟩ := mark?_of_spelling h hp
  have hstart : c ∈ markStarts := by
    refine Classical.byContradiction fun hm => ?_
    rw [mark?_of_not_mem hm] at hmark
    cases hmark
  unfold pieceAt
  rw [if_neg (plain_of_mem_markStarts c hstart).2.2.1]
  split
  · rename_i found hcomment
    split at hcomment
    · exact attains_comment hcomment _ _
    · cases hcomment
  · rw [hmark]
    exact Nat.succ_le_succ hlength

theorem attains_word (hc : Identifier.isStart c) (hp : tail <+: cs)
    (hrest : ∀ d ∈ tail, Identifier.isContinue d) :
    (pieceAt c cs).1.Attains ((pieceAt c cs).2 + 1) (tail.length + 1) := by
  rw [pieceAt_of_isStart hc]
  exact Nat.succ_le_succ (length_le_runLength hp hrest)

theorem attains_number (hc : c.isDigit) (hp : tail <+: cs) (hrest : ∀ d ∈ tail, d.isDigit) :
    (pieceAt c cs).1.Attains ((pieceAt c cs).2 + 1) (tail.length + 1) := by
  rw [pieceAt_of_isDigit hc]
  unfold numberPiece
  dsimp only
  split
  · exact Nat.succ_le_succ (length_le_runLength hp hrest)
  · exact trivial

theorem attains_string {body : List Char} (hbody : StringBody body) (hp : body ++ ['"'] <+: cs) :
    (pieceAt '"' cs).1.Attains ((pieceAt '"' cs).2 + 1) ((body ++ ['"']).length + 1) := by
  obtain ⟨rest, rfl⟩ := hp
  rw [pieceAt_string, List.append_assoc, List.singleton_append, stringPiece_of_stringBody hbody,
    List.length_append]
  exact Nat.le_refl _

theorem closedChar_eq {body : List Char} (hdecode : Escape.decodeByte body ≠ none) :
    closedChar body = .token .charLiteral := by
  unfold closedChar
  split
  · rfl
  · rename_i hnone
    exact absurd hnone hdecode

/-- Between two quotes, the body of a character constant is all that is taken. -/
theorem CharBody.charPiece {body : List Char} (h : CharBody body) (rest : List Char) :
    charPiece (body ++ '\'' :: rest) = (closedChar body, body.length + 1) := by
  cases h with
  | plain quote backslash newline =>
      rw [List.singleton_append, Lexeme.charPiece]
      · rfl
      · exact newline
      · exact quote
      · exact fun _ h _ => absurd h backslash
      · exact backslash
  | escape e => rfl

/-- A character constant is a body between quotes. -/
theorem attains_char {body : List Char} (hbody : CharBody body)
    (hdecode : Escape.decodeByte body ≠ none) (hp : body ++ ['\''] <+: cs) :
    (pieceAt '\'' cs).1.Attains ((pieceAt '\'' cs).2 + 1) ((body ++ ['\'']).length + 1) := by
  obtain ⟨rest, rfl⟩ := hp
  rw [pieceAt_char, List.append_assoc, List.singleton_append, hbody.charPiece,
    closedChar_eq hdecode, List.length_append]
  exact Nat.le_refl _

theorem reserved_words : ∀ entry ∈ Kind.reserved, entry.1.toList.head?.any Identifier.isStart ∧
    entry.1.toList.tail.all Identifier.isContinue := by
  decide

/-- **Maximal munch**: where a text begins with a lexeme, a token is not shorter. -/
theorem attains_pieceAt {kind : Kind} {lexeme : List Char} (h : IsLexeme kind lexeme)
    (hp : lexeme <+: c :: cs) :
    (pieceAt c cs).1.Attains ((pieceAt c cs).2 + 1) lexeme.length := by
  have hcons : ∀ {d : Char} {tail : List Char}, d :: tail <+: c :: cs → d = c ∧ tail <+: cs :=
    fun h => List.cons_prefix_cons.1 h
  cases h with
  | @reserved word kind known =>
      obtain ⟨hstart, hall⟩ := reserved_words _ known
      cases hword : word.toList with
      | nil =>
          rw [hword] at hstart
          cases hstart
      | cons d tail =>
          rw [hword] at hp hstart hall
          obtain ⟨rfl, htail⟩ := hcons hp
          exact attains_word (by simpa using hstart) htail (List.all_eq_true.1 hall)
  | identifier start rest free =>
      obtain ⟨rfl, htail⟩ := hcons hp
      exact attains_word start htail rest
  | number first rest =>
      obtain ⟨rfl, htail⟩ := hcons hp
      exact attains_number first htail rest
  | char ascii quote backslash newline =>
      obtain ⟨rfl, htail⟩ := hcons hp
      exact attains_char (.plain quote backslash newline) ((decodeByte_plain backslash).2 ascii)
        htail
  | charEscape known =>
      obtain ⟨rfl, htail⟩ := hcons hp
      exact attains_char (.escape _) (decodeByte_escape.2 known) htail
  | string items =>
      obtain ⟨rfl, htail⟩ := hcons hp
      exact attains_string items htail
  | mark mark =>
      cases hspelling : mark.spelling.toList with
      | nil => cases mark <;> simp [Punct.spelling] at hspelling
      | cons d tail =>
          rw [hspelling] at hp
          obtain ⟨rfl, htail⟩ := hcons hp
          exact attains_mark hspelling htail

/-! ## What goes before lexemes -/

/-- **A comment is found where one is opened.** -/
theorem pieceAt_of_opensComment (h : OpensComment (c :: cs)) :
    (pieceAt c cs).1 = .comment ∨ (pieceAt c cs).1 = .malformed .openComment := by
  have hfound : c = '/' ∧ ∃ found, comment? cs = some found := by
    rcases h with ⟨rest, htext⟩ | ⟨rest, htext⟩
    · cases htext
      exact ⟨rfl, _, rfl⟩
    · cases htext
      refine ⟨rfl, ?_⟩
      show ∃ found, comment? ('*' :: rest) = some found
      rw [comment?]
      cases blockLength? rest <;> exact ⟨_, rfl⟩
  obtain ⟨rfl, found, hfound⟩ := hfound
  rw [pieceAt_of_comment hfound]
  exact piece_of_comment? hfound

/-- Digits that run on into a word are taken with the whole word. -/
theorem numberPiece_of_runs {d : Char} {digits word after : List Char}
    (hdigits : ∀ e ∈ digits, e.isDigit) (hnext : d.isDigit = false)
    (hruns : ∀ e ∈ d :: word, Identifier.isContinue e)
    (hstop : ∀ e, after.head? = some e → Identifier.isContinue e = false) :
    numberPiece c (digits ++ (d :: word ++ after)) =
      (.malformed (.badNumber (String.ofList (c :: digits ++ d :: word))),
        (digits ++ d :: word).length) := by
  have hdigit : ∀ e, (d :: word ++ after).head? = some e → e.isDigit = false := by
    intro e he
    cases he
    exact hnext
  have htake : (digits ++ (d :: word ++ after)).take (digits.length + (d :: word).length) =
      digits ++ d :: word := by
    rw [← List.append_assoc, ← List.length_append, List.take_left]
  rw [numberPiece, runLength_run hdigits hdigit, List.drop_left, runLength_run hruns hstop,
    if_neg (by simp), htake, List.length_append]
  rfl

/-- **Digits that run on into a word are found as such.** -/
theorem pieceAt_of_runsOn (h : RunsOn (c :: cs)) :
    ∃ lexeme, (pieceAt c cs).1 = .malformed (.badNumber lexeme) := by
  obtain ⟨digits, d, rest, htext, hne, hdigits, hnext, hruns⟩ := h
  cases digits with
  | nil => exact absurd rfl hne
  | cons c' digits =>
      cases htext
      obtain ⟨hc, hdigits⟩ := List.forall_mem_cons.1 hdigits
      -- The word goes on as far as it can.
      have hword : ∀ e ∈ d :: rest.takeWhile Identifier.isContinue, Identifier.isContinue e :=
        List.forall_mem_cons.2 ⟨hruns, List.all_eq_true.1 List.all_takeWhile⟩
      have hstop : ∀ e, (rest.dropWhile Identifier.isContinue).head? = some e →
          Identifier.isContinue e = false := by
        intro e he
        rw [← drop_runLength] at he
        exact head?_drop_runLength he
      have hpiece := @numberPiece_of_runs c _ _ _ _ hdigits hnext hword hstop
      rw [List.cons_append, List.takeWhile_append_dropWhile] at hpiece
      exact ⟨_, (congrArg Prod.fst (pieceAt_of_isDigit hc)).trans (congrArg Prod.fst hpiece)⟩

/-- **The piece that a text begins with follows the lexical grammar.** -/
theorem fits_pieceAt (c : Char) (cs : List Char) :
    Segment.Fits ⟨(pieceAt c cs).1, c :: cs.take (pieceAt c cs).2⟩ (cs.drop (pieceAt c cs).2) := by
  have htext : c :: cs.take (pieceAt c cs).2 ++ cs.drop (pieceAt c cs).2 = c :: cs := by
    rw [List.cons_append, List.take_append_drop]
  refine ⟨shape_pieceAt c cs, ?_, ?_, ?_⟩
  · intro kind lexeme hlexeme hp
    have hp : lexeme <+: c :: cs := by rwa [htext] at hp
    have hattains := attains_pieceAt hlexeme hp
    have hlength := hp.length_le
    show (pieceAt c cs).1.Attains (c :: cs.take (pieceAt c cs).2).length lexeme.length
    refine hattains.of_le fun hle => ?_
    rw [List.length_cons, List.length_take]
    rw [List.length_cons] at hlength
    omega
  · intro hopens
    exact pieceAt_of_opensComment (htext ▸ hopens)
  · intro hruns
    exact pieceAt_of_runsOn (htext ▸ hruns)

end Lexeme

end Cmm
