import Cmm.Proofs.Scan.Lossless
import Cmm.Proofs.Scan.Stops

/-!
# Scanning line by line

A newline takes part in no piece but a blank, a block comment and an open constant. Where a text has
been scanned without a report, none of these is open at its end, and what follows on another line is
scanned as if it stood alone.

* `Scan.shift` — a scan of a text that stands further behind.
* `Scan.layOut_shift` — segments that are laid out further behind yield the same, shifted.
* `Scan.layOut_newline` — a text without reports, a newline and more text.
* `scan_append_newline` — the scan of two texts on separate lines is put together from theirs.
-/

set_option autoImplicit false

namespace Cmm

/-! ## Moving a text -/

def Span.shift (size : Nat) (s : Span) : Span := ⟨s.offset + size, s.length⟩

def Token.shift (size : Nat) (t : Token) : Token := { t with span := t.span.shift size }

def Report.shift {φ : Type} (size : Nat) (r : Report φ) : Report φ :=
  { r with span := r.span.shift size }

namespace Scan

/-- The scan of a text that stands so many bytes further behind. -/
def shift (size : Nat) (s : Scan) : Scan :=
  ⟨s.tokens.map (Token.shift size), s.reports.map (Report.shift size)⟩

theorem shift_consSegment (size : Nat) (s : Segment) (offset : Nat) (later : Scan) :
    (consSegment s offset later).shift size = consSegment s (offset + size) (later.shift size) := by
  obtain ⟨piece, text⟩ := s
  cases piece with
  | blank | comment | token kind => rfl
  | malformed fault => cases fault <;> rfl

/-- Segments that are laid out further behind yield the same, shifted. -/
theorem layOut_shift (size offset : Nat) (segments : List Segment) :
    layOut (offset + size) segments = (layOut offset segments).shift size := by
  induction segments generalizing offset with
  | nil => rfl
  | cons s rest ih =>
      have hoffset : offset + size + s.size = offset + s.size + size := by
        omega
      rw [layOut, layOut, shift_consSegment, hoffset, ih]

/-! ## Going on behind a newline -/

/-- What is in front of `later` when a text that yields `tokens` and no report goes on. -/
def before (tokens : List Token) (later : Scan) : Scan :=
  { later with tokens := tokens ++ later.tokens }

/-- A segment is no malformed piece if it leaves no report. -/
theorem clean_of_consSegment {s : Segment} {offset : Nat} {later : Scan}
    (h : (consSegment s offset later).reports = []) :
    later.reports = [] ∧ ∀ fault, s.piece ≠ .malformed fault := by
  obtain ⟨piece, text⟩ := s
  cases piece with
  | blank | comment | token kind => exact ⟨h, nofun⟩
  | malformed fault => cases h

theorem consSegment_before {s : Segment} (hs : ∀ fault, s.piece ≠ .malformed fault)
    (offset : Nat) (tokens : List Token) (later : Scan) :
    consSegment s offset (before tokens later) =
      before ((Segment.token? (offset, s)).toList ++ tokens) later := by
  obtain ⟨piece, text⟩ := s
  cases piece with
  | blank | comment | token kind => rfl
  | malformed fault => exact absurd rfl (hs fault)

open Lexeme in
/-- A piece that is no malformed one is found as well when a newline follows the text. -/
theorem layOut_cut (offset : Nat) {c : Char} {cs : List Char} {piece : Piece} {n : Nat}
    (hpiece : pieceAt c cs = (piece, n)) (sound : ∀ fault, piece ≠ .malformed fault)
    (b : List Char) :
    layOut offset (segments (c :: cs ++ '\n' :: b)) =
      consSegment ⟨piece, c :: cs.take n⟩ offset
        (layOut (offset + Text.size (c :: cs.take n)) (segments (cs.drop n ++ '\n' :: b))) := by
  have hnewline : ∀ d, ('\n' :: b).head? = some d → d = '\n' := by
    intro d hd
    exact (Option.some.inj hd).symm
  have hblank : BlankFirst ('\n' :: b) := by
    intro d hd
    rw [hnewline d hd]
    rfl
  have hkind : (pieceAt c cs).1 = piece := congrArg Prod.fst hpiece
  have hkept (h : Keeps (pieceAt c) cs ('\n' :: b)) :
      segments (c :: cs ++ '\n' :: b) =
        ⟨piece, c :: cs.take n⟩ :: segments (cs.drop n ++ '\n' :: b) := by
    rw [segments_append h, hpiece]
  cases piece with
  | token kind =>
      rw [hkept (keeps_token hblank hkind)]
      rfl
  | comment =>
      rw [hkept (keeps_comment hnewline hkind)]
      rfl
  | malformed fault => exact absurd rfl (sound fault)
  | blank =>
      -- Here the newline joins the piece, so the blanks are passed over one by one.
      have hshape := shape_pieceAt c cs
      rw [hpiece] at hshape
      have htext : c :: cs ++ '\n' :: b = c :: cs.take n ++ (cs.drop n ++ '\n' :: b) := by
        rw [← List.append_assoc]
        exact congrArg (c :: · ++ '\n' :: b) (List.take_append_drop n cs).symm
      rw [htext, layOut_blanks offset hshape.2.1]
      rfl

/-- **A text without reports, a newline and more text**: what the text yields stands in front of
what the other yields on its own. -/
theorem layOut_newline (offset : Nat) (a b : List Char)
    (clean : (layOut offset (segments a)).reports = []) : ∃ tokens,
      layOut offset (segments a) = before tokens (atEnd (offset + Text.size a)) ∧
      layOut offset (segments (a ++ '\n' :: b)) =
        before tokens (layOut (offset + Text.size a + 1) (segments b)) := by
  induction a using segments.induct generalizing offset with
  | case1 =>
      refine ⟨[], ?_, ?_⟩
      · rw [segments]
        rfl
      · exact layOut_blank offset rfl b
  | case2 c cs piece n hpiece ih =>
      have hcut : layOut offset (segments (c :: cs)) = consSegment ⟨piece, c :: cs.take n⟩ offset
          (layOut (offset + Text.size (c :: cs.take n)) (segments (cs.drop n))) := by
        rw [segments, hpiece]
        rfl
      rw [hcut] at clean ⊢
      obtain ⟨hclean, sound⟩ := clean_of_consSegment clean
      obtain ⟨tokens, ha, hab⟩ := ih (offset + Text.size (c :: cs.take n)) hclean
      have hsize : offset + Text.size (c :: cs.take n) + Text.size (cs.drop n) =
          offset + Text.size (c :: cs) := by
        rw [Nat.add_assoc, ← Text.size_append, List.cons_append, List.take_append_drop]
      rw [hsize] at ha hab
      refine ⟨(Segment.token? (offset, ⟨piece, c :: cs.take n⟩)).toList ++ tokens, ?_, ?_⟩
      · rw [ha, consSegment_before sound]
      · rw [layOut_cut offset hpiece sound, hab, consSegment_before sound]

end Scan

/-- **The scanner works line by line.** Behind a text that is scanned without a report and a
newline, a second text yields the tokens and the reports that it yields alone, moved behind the
newline; in front of them are the tokens of the first text without the mark of its end, and nothing
else. -/
theorem scan_append_newline (a b : String) (clean : (scan a).reports = []) :
    ∃ tokens, (scan a).tokens = tokens ++ [Token.endAt a.utf8ByteSize] ∧
      scan (a ++ "\n" ++ b) =
        ⟨tokens ++ (scan b).tokens.map (Token.shift (a.utf8ByteSize + 1)),
          (scan b).reports.map (Report.shift (a.utf8ByteSize + 1))⟩ := by
  obtain ⟨tokens, ha, hab⟩ := Scan.layOut_newline 0 a.toList b.toList clean
  have htext : (a ++ "\n" ++ b).toList = a.toList ++ '\n' :: b.toList := by
    simp
  rw [Nat.zero_add, Text.size_toList] at ha hab
  refine ⟨tokens, ?_, ?_⟩
  · rw [scan, ha]
    rfl
  · have hshift := Scan.layOut_shift (a.utf8ByteSize + 1) 0 (segments b.toList)
    rw [Nat.zero_add] at hshift
    rw [scan, htext, hab, hshift]
    rfl

/-- A slash at the end of a line and one at the beginning of the next open no comment, and a
constant that is left open there is reported where it stands. -/
theorem scan_append_newline_slash :
    let a := "x = \"s\\n\" <= y /* : */ /"
    let b := "/ 'a' \"open"
    (scan a).reports = [] ∧ ∃ tokens, (scan a).tokens = tokens ++ [Token.endAt a.utf8ByteSize] ∧
      scan (a ++ "\n" ++ b) =
        ⟨tokens ++ (scan b).tokens.map (Token.shift (a.utf8ByteSize + 1)),
          (scan b).reports.map (Report.shift (a.utf8ByteSize + 1))⟩ :=
  ⟨by decide +kernel, scan_append_newline _ _ (by decide +kernel)⟩

end Cmm
