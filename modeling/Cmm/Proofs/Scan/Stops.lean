import Cmm.Proofs.Lines
import Cmm.Proofs.Scan.Pieces

/-!
# Where a piece stops

A piece that a scan finds in front of the end of a text is found as well when the text goes on with
a blank. So blanks keep tokens apart, and between tokens they are worth nothing.

* `Lexeme.BlankFirst` — a text that is empty or begins with a blank.
* `Lexeme.Keeps` — what is found at the beginning of a text stays the same when more follows.
* `Lexeme.keeps_token`, `Lexeme.keeps_comment` — tokens are kept in front of a blank, comments in
  front of a newline.
* `segments_append` — a piece that is kept is cut off first.
* `Scan.layOut_blanks` — blanks in front of a text move what follows them.
-/

set_option autoImplicit false

namespace Cmm

namespace Lexeme

/-- A text that is empty or begins with a blank. -/
def BlankFirst (after : List Char) : Prop := ∀ d, after.head? = some d → isBlank d

theorem blankFirst_nil : BlankFirst [] := nofun

/-- What is found at the beginning of a text lies within it, and is found there too when more text
follows. -/
structure Keeps (find : List Char → Piece × Nat) (cs after : List Char) : Prop where
  same : find (cs ++ after) = find cs
  reach : (find cs).2 ≤ cs.length

/-- A blank goes on neither with a word nor with a number, and is no second half of a mark. -/
theorem stops_of_isBlank {c : Char} (hc : isBlank c) : Identifier.isContinue c = false ∧
    c.isDigit = false ∧ c ≠ '=' ∧ c ≠ '&' ∧ c ≠ '|' ∧ c ≠ '/' ∧ c ≠ '*' := by
  have hall : [' ', '\t', '\r', '\n'].all fun c => decide (Identifier.isContinue c = false ∧
      c.isDigit = false ∧ c ≠ '=' ∧ c ≠ '&' ∧ c ≠ '|' ∧ c ≠ '/' ∧ c ≠ '*') := by
    decide
  exact of_decide_eq_true (List.all_eq_true.1 hall c (isBlank_iff.1 hc))

variable {c : Char} {cs after : List Char} {n : Nat}

/-! ## Runs -/

theorem runLength_le (p : Char → Bool) (cs : List Char) : runLength p cs ≤ cs.length :=
  (List.takeWhile_prefix p).length_le

/-- A run does not go on behind the text if what follows stops it. -/
theorem runLength_append {p : Char → Bool} (stop : ∀ d, after.head? = some d → p d = false)
    (cs : List Char) : runLength p (cs ++ after) = runLength p cs := by
  have hafter : after.takeWhile p = [] := by
    cases after with
    | nil => rfl
    | cons d rest => rw [List.takeWhile_cons, stop d rfl, if_neg Bool.false_ne_true]
  unfold runLength
  rw [List.takeWhile_append, hafter, List.append_nil]
  split
  · rename_i hwhole
    exact hwhole.symm
  · rfl

theorem keeps_word (c : Char) (cs : List Char) (hafter : BlankFirst after) :
    Keeps (wordPiece c) cs after := by
  have hrun : runLength Identifier.isContinue (cs ++ after) =
      runLength Identifier.isContinue cs := by
    apply runLength_append
    intro d hd
    exact (stops_of_isBlank (hafter d hd)).1
  have hreach := runLength_le Identifier.isContinue cs
  constructor
  · unfold wordPiece
    dsimp only
    rw [hrun, List.take_append_of_le_length hreach]
  · exact hreach

theorem keeps_number (c : Char) (cs : List Char) (hafter : BlankFirst after) :
    Keeps (numberPiece c) cs after := by
  have hdigits : runLength Char.isDigit (cs ++ after) = runLength Char.isDigit cs := by
    apply runLength_append
    intro d hd
    exact (stops_of_isBlank (hafter d hd)).2.1
  have hreach := runLength_le Char.isDigit cs
  have hword := (keeps_word c (cs.drop (runLength Char.isDigit cs)) hafter)
  have hword' : runLength Identifier.isContinue (cs.drop (runLength Char.isDigit cs) ++ after) =
      runLength Identifier.isContinue (cs.drop (runLength Char.isDigit cs)) :=
    congrArg Prod.snd hword.same
  have hreach' : runLength Char.isDigit cs +
      runLength Identifier.isContinue (cs.drop (runLength Char.isDigit cs)) ≤ cs.length := by
    have := hword.reach
    rw [List.length_drop] at this
    have : runLength Identifier.isContinue (cs.drop (runLength Char.isDigit cs)) ≤ _ := this
    omega
  constructor
  · unfold numberPiece
    dsimp only
    rw [hdigits, List.drop_append_of_le_length hreach, hword',
      List.take_append_of_le_length hreach']
  · unfold numberPiece
    dsimp only
    split
    · exact hreach
    · exact hreach'

/-! ## Constants in quotes -/

theorem of_stringPiece {kind : Kind} (h : (stringPiece cs).1 = .token kind) :
    ∃ body rest, cs = body ++ '"' :: rest ∧ StringBody body := by
  unfold stringPiece at h
  split at h
  · rename_i n hclosed
    obtain ⟨body, rest, rfl, rfl, hbody⟩ := of_stringReach_closed hclosed
    rw [Nat.add_sub_cancel, List.take_left] at h
    split at h
    · rename_i text hdecode
      have hsome : Escape.decodeText body ≠ none := by
        rw [hdecode]
        exact Option.some_ne_none text
      exact ⟨body, rest, rfl, (stringBody_iff hbody).2 hsome⟩
    · cases h
  · cases h

theorem keeps_string {kind : Kind} (h : (stringPiece cs).1 = .token kind) (after : List Char) :
    Keeps stringPiece cs after := by
  obtain ⟨body, rest, rfl, hbody⟩ := of_stringPiece h
  have hfound := stringPiece_of_stringBody hbody
  constructor
  · rw [List.append_assoc, List.cons_append, hfound, hfound]
  · rw [hfound]
    simp

theorem keeps_char {kind : Kind} (h : (charPiece cs).1 = .token kind) (after : List Char) :
    Keeps charPiece cs after := by
  have hkeeps {body rest : List Char} (hbody : CharBody body) :
      Keeps charPiece (body ++ '\'' :: rest) after := by
    constructor
    · rw [List.append_assoc, List.cons_append, hbody.charPiece, hbody.charPiece]
    · rw [hbody.charPiece]
      simp
  unfold charPiece at h
  split at h
  case h_4 e rest => exact hkeeps (.escape e)
  case h_7 c rest newline quote _ backslash => exact hkeeps (.plain quote backslash newline)
  all_goals cases h

theorem keeps_plain {kind : Kind} (hafter : BlankFirst after)
    (h : (plainPiece c cs).1 = .token kind) : Keeps (plainPiece c) cs after := by
  have hcases (cs : List Char) : plainPiece c cs = if c = '"' then stringPiece cs
      else if c = '\'' then charPiece cs else if c.isDigit then numberPiece c cs
      else if Identifier.isStart c then wordPiece c cs else (.malformed (.unexpected c), 0) := rfl
  by_cases hstring : c = '"'
  · have hfind : plainPiece c = stringPiece := by
      funext cs
      rw [hcases, if_pos hstring]
    rw [hfind] at h ⊢
    exact keeps_string h after
  by_cases hchar : c = '\''
  · have hfind : plainPiece c = charPiece := by
      funext cs
      rw [hcases, if_neg hstring, if_pos hchar]
    rw [hfind] at h ⊢
    exact keeps_char h after
  by_cases hdigit : c.isDigit
  · have hfind : plainPiece c = numberPiece c := by
      funext cs
      rw [hcases, if_neg hstring, if_neg hchar, if_pos hdigit]
    rw [hfind]
    exact keeps_number c cs hafter
  by_cases hstart : Identifier.isStart c
  · have hfind : plainPiece c = wordPiece c := by
      funext cs
      rw [hcases, if_neg hstring, if_neg hchar, if_neg hdigit, if_pos hstart]
    rw [hfind]
    exact keeps_word c cs hafter
  · rw [hcases, if_neg hstring, if_neg hchar, if_neg hdigit, if_neg hstart] at h
    cases h

/-! ## Marks and comments -/

/-- A blank does not complete a mark. -/
theorem mark?_append (hafter : BlankFirst after) (c : Char) (cs : List Char) :
    mark? c (cs ++ after) = mark? c cs := by
  have hhead (d : Char) (hd : ¬ isBlank d) :
      (cs ++ after).head? = some d ↔ cs.head? = some d := by
    cases cs with
    | cons e rest => rfl
    | nil =>
        constructor
        · intro h
          exact absurd (hafter d h) hd
        · intro h
          cases h
  unfold mark?
  simp only [hhead '=' (by decide), hhead '&' (by decide), hhead '|' (by decide)]

theorem reach_of_mark? {mark : Punct} (h : mark? c cs = some (mark, n)) : n ≤ cs.length := by
  have hhead {d : Char} (hd : cs.head? = some d) : 1 ≤ cs.length := by
    cases cs with
    | nil => cases hd
    | cons e rest => exact Nat.succ_pos _
  unfold mark? at h
  dsimp only at h
  split at h
  all_goals
    first
      | cases h <;> exact Nat.zero_le _
      | split at h
        · rename_i hd
          cases h
          exact hhead hd
        · cases h <;> exact Nat.zero_le _

/-- Behind a slash a blank begins no comment. -/
theorem comment?_append_of_none (hafter : BlankFirst after) (h : comment? cs = none) :
    comment? (cs ++ after) = none := by
  have hnone {d : Char} {rest : List Char} (hslash : d ≠ '/') (hstar : d ≠ '*') :
      comment? (d :: rest) = none := by
    unfold comment?
    split
    · rename_i heq
      exact absurd (List.cons.inj heq).1 hslash
    · rename_i heq
      exact absurd (List.cons.inj heq).1 hstar
    · rfl
  cases cs with
  | nil =>
      cases after with
      | nil => rfl
      | cons d rest =>
          obtain ⟨-, -, -, -, -, hslash, hstar⟩ := stops_of_isBlank (hafter d rfl)
          exact hnone hslash hstar
  | cons d rest =>
      apply hnone
      · rintro rfl
        cases h
      · rintro rfl
        rw [comment?] at h
        split at h <;> cases h

theorem blockLength?_append (h : blockLength? cs = some n) (after : List Char) :
    blockLength? (cs ++ after) = some n ∧ n ≤ cs.length := by
  induction cs using blockLength?.induct generalizing n with
  | case1 => cases h
  | case2 rest =>
      cases h
      exact ⟨rfl, by simp⟩
  | case3 c cs hopen ih =>
      rw [blockLength?] at h
      · obtain ⟨m, hm, rfl⟩ := Option.map_eq_some_iff.1 h
        obtain ⟨hfound, hreach⟩ := ih hm
        constructor
        · rw [List.cons_append, blockLength?, hfound]
          · rfl
          · rintro rest rfl hcs
            cases cs with
            | nil => cases hm
            | cons d cs =>
                obtain ⟨rfl, -⟩ := List.cons.inj hcs
                exact hopen cs rfl rfl
        · exact Nat.succ_le_succ hreach
      · exact hopen

/-- A comment that is closed stays as it is in front of a newline. -/
theorem comment?_append (hafter : ∀ d, after.head? = some d → d = '\n')
    (h : comment? cs = some (.comment, n)) :
    comment? (cs ++ after) = some (.comment, n) ∧ n ≤ cs.length := by
  unfold comment? at h
  split at h
  · rename_i rest
    cases h
    have hrun : runLength (· != '\n') (rest ++ after) = runLength (· != '\n') rest := by
      apply runLength_append
      intro d hd
      simp [hafter d hd]
    have hreach := runLength_le (· != '\n') rest
    constructor
    · rw [List.cons_append, comment?, hrun]
    · rw [List.length_cons]
      omega
  · rename_i rest
    split at h
    · rename_i m hm
      cases h
      obtain ⟨hfound, hreach⟩ := blockLength?_append hm after
      constructor
      · rw [List.cons_append, comment?, hfound]
      · rw [List.length_cons]
        omega
    · cases h
  · cases h

/-! ## Pieces -/

theorem pieceAt_of_free (hblank : ¬ isBlank c) (hfree : c = '/' → comment? cs = none) :
    pieceAt c cs = match mark? c cs with
      | some (mark, n) => (.token (.punct mark), n)
      | none => plainPiece c cs := by
  have hnone : (if c = '/' then comment? cs else none) = none := by
    split
    · rename_i hslash
      exact hfree hslash
    · rfl
  cases hmark : mark? c cs with
  | none => simp only [pieceAt, if_neg hblank, hnone, hmark]
  | some found => simp only [pieceAt, if_neg hblank, hnone, hmark]

/-- Where a comment begins, there is no token. -/
theorem free_of_token {kind : Kind} (h : (pieceAt c cs).1 = .token kind) :
    ¬ isBlank c ∧ (c = '/' → comment? cs = none) := by
  constructor
  · intro hblank
    rw [pieceAt, if_pos hblank] at h
    cases h
  · rintro rfl
    cases hfound : comment? cs with
    | none => rfl
    | some found =>
        rw [pieceAt_of_comment hfound] at h
        rcases piece_of_comment? hfound with hpiece | hpiece <;> rw [hpiece] at h <;> cases h

/-- **A token stays what it is when a blank follows.** -/
theorem keeps_token {kind : Kind} (hafter : BlankFirst after)
    (h : (pieceAt c cs).1 = .token kind) : Keeps (pieceAt c) cs after := by
  obtain ⟨hblank, hfree⟩ := free_of_token h
  have hfree' (hc : c = '/') : comment? (cs ++ after) = none :=
    comment?_append_of_none hafter (hfree hc)
  have hpiece := pieceAt_of_free hblank hfree
  have hpiece' := pieceAt_of_free hblank hfree'
  rw [mark?_append hafter] at hpiece'
  cases hmark : mark? c cs with
  | some found =>
      rw [hmark] at hpiece hpiece'
      constructor
      · rw [hpiece, hpiece']
      · rw [hpiece]
        exact reach_of_mark? hmark
  | none =>
      rw [hmark] at hpiece hpiece'
      dsimp only at hpiece hpiece'
      rw [hpiece] at h
      have hkeeps := keeps_plain hafter h
      constructor
      · rw [hpiece, hpiece', hkeeps.same]
      · rw [hpiece]
        exact hkeeps.reach

/-- **A comment stays what it is when a newline follows.** -/
theorem keeps_comment (hafter : ∀ d, after.head? = some d → d = '\n')
    (h : (pieceAt c cs).1 = .comment) : Keeps (pieceAt c) cs after := by
  have hslash : c = '/' := by
    have hshape := shape_pieceAt c cs
    rw [h] at hshape
    generalize htext : c :: cs.take (pieceAt c cs).2 = text at hshape
    have hcomment : IsComment text (cs.drop (pieceAt c cs).2) := hshape
    cases hcomment <;> exact (List.cons.inj htext).1
  subst hslash
  cases hfound : comment? cs with
  | none =>
      rw [pieceAt_of_free (by decide) fun _ => hfound] at h
      cases h
  | some found =>
      obtain ⟨piece, n⟩ := found
      have hpiece := pieceAt_of_comment hfound
      rw [hpiece] at h
      obtain rfl : piece = .comment := h
      obtain ⟨hfound', hreach⟩ := comment?_append hafter hfound
      constructor
      · rw [pieceAt_of_comment hfound', hpiece]
      · rw [hpiece]
        exact hreach

end Lexeme

open Lexeme

/-- A piece that is kept is cut off, and what follows it is cut on its own. -/
theorem segments_append {c : Char} {cs after : List Char} (h : Keeps (pieceAt c) cs after) :
    segments (c :: cs ++ after) = ⟨(pieceAt c cs).1, c :: cs.take (pieceAt c cs).2⟩ ::
      segments (cs.drop (pieceAt c cs).2 ++ after) := by
  rw [List.cons_append, segments, h.same]
  dsimp only
  rw [List.take_append_of_le_length h.reach, List.drop_append_of_le_length h.reach]

namespace Scan

theorem size_blank_cons {c : Char} (hc : isBlank c) (cs : List Char) :
    Text.size (c :: cs) = 1 + Text.size cs := by
  have hall : [' ', '\t', '\r', '\n'].all fun c => decide (Text.size [c] = 1) := by
    decide
  have hone : Text.size [c] = 1 :=
    of_decide_eq_true (List.all_eq_true.1 hall c (isBlank_iff.1 hc))
  rw [← hone]
  exact Text.size_append [c] cs

/-- A run of blanks is passed over. -/
theorem layOut_run (offset : Nat) {c : Char} (hc : isBlank c) (cs : List Char) :
    layOut offset (segments (c :: cs)) =
      layOut (offset + Text.size (c :: cs.take (runLength isBlank cs)))
        (segments (cs.drop (runLength isBlank cs))) := by
  have hpiece : pieceAt c cs = (.blank, runLength isBlank cs) := by
    unfold pieceAt
    rw [if_pos hc]
  rw [segments, hpiece]
  rfl

theorem layOut_blank (offset : Nat) {c : Char} (hc : isBlank c) (cs : List Char) :
    layOut offset (segments (c :: cs)) = layOut (offset + 1) (segments cs) := by
  rw [layOut_run offset hc, size_blank_cons hc, ← Nat.add_assoc]
  cases cs with
  | nil => rfl
  | cons d rest =>
      by_cases hd : isBlank d
      · have hrun : runLength isBlank (d :: rest) = runLength isBlank rest + 1 := by
          unfold runLength
          rw [List.takeWhile_cons_of_pos hd]
          rfl
        rw [layOut_run (offset + 1) hd, hrun, List.take_succ_cons, List.drop_succ_cons]
      · have hrun : runLength isBlank (d :: rest) = 0 := by
          unfold runLength
          rw [List.takeWhile_cons_of_neg hd]
          rfl
        rw [hrun]
        rfl

/-- **Blanks in front of a text move what follows them**, and do nothing else. -/
theorem layOut_blanks (offset : Nat) {blanks : List Char} (h : ∀ c ∈ blanks, isBlank c)
    (cs : List Char) : layOut offset (segments (blanks ++ cs)) =
      layOut (offset + Text.size blanks) (segments cs) := by
  induction blanks generalizing offset with
  | nil => rfl
  | cons c blanks ih =>
      obtain ⟨hc, hrest⟩ := List.forall_mem_cons.1 h
      rw [List.cons_append, layOut_blank offset hc, ih (offset + 1) hrest, size_blank_cons hc,
        Nat.add_assoc]

end Scan

end Cmm
