import Cmm.Proofs.Layout
import Cmm.Proofs.Scan.Lossless
import Cmm.Proofs.Scan.Stops

/-!
# Tokens print and rescan

A token is known by its lexeme alone. Written out with blanks between them, lexemes are scanned back
as they were, whatever stood between them before.

* `Gap` — blanks between two tokens; `spread` — texts with gaps between them.
* `Scan.layOut_spread` — lexemes that are spread yield their tokens and no report.
* `Kind.ofLexeme` — the kind that a lexeme has on its own.
* `scan_spread` — the lexemes of any scan, spread by any gaps, are scanned back.
-/

set_option autoImplicit false

namespace Cmm

/-- Blanks between two tokens, at least one. -/
structure Gap where
  text : String
  nonempty : text ≠ ""
  blank : ∀ c ∈ text.toList, Lexeme.isBlank c

/-- Texts one behind the other, with one gap after the other between them. -/
def spread (gap : Nat → Gap) : List String → String
  | [] => ""
  | [text] => text
  | text :: next :: rest => text ++ (gap 0).text ++ spread (fun i => gap (i + 1)) (next :: rest)

namespace Lexeme

/-- In front of a blank a lexeme is cut off as one token of its kind. -/
theorem segments_lexeme {kind : Kind} {text after : List Char} (h : IsLexeme kind text)
    (hafter : BlankFirst after) :
    segments (text ++ after) = ⟨.token kind, text⟩ :: segments after := by
  obtain ⟨c, tail, rfl, hpiece⟩ := pieceAt_of_isLexeme h
  have hkeeps := keeps_token hafter (congrArg Prod.fst hpiece)
  rw [segments_append hkeeps, hpiece, List.take_length, List.drop_length, List.nil_append]

end Lexeme

/-! ## Spread lexemes -/

/-- A word of the language: a lexeme with its kind. -/
def IsWord (w : Kind × String) : Prop := Lexeme.IsLexeme w.1 w.2.toList

theorem Gap.blankFirst (g : Gap) (after : List Char) :
    Lexeme.BlankFirst (g.text.toList ++ after) := by
  intro d hd
  apply g.blank
  have hne : g.text.toList ≠ [] := by
    simpa using g.nonempty
  rw [List.head?_append_of_ne_nil _ hne] at hd
  exact List.mem_of_head? hd

open Lexeme in
/-- A lexeme in front of a blank yields its word, and no report. -/
theorem Scan.words_lexeme {w : Kind × String} (hw : IsWord w) {after : List Char}
    (hafter : BlankFirst after) (offset : Nat) :
    (layOut offset (segments (w.2.toList ++ after))).reports =
        (layOut (offset + w.2.utf8ByteSize) (segments after)).reports ∧
      (layOut offset (segments (w.2.toList ++ after))).tokens.map Token.word =
        w :: (layOut (offset + w.2.utf8ByteSize) (segments after)).tokens.map Token.word := by
  have hsize : Segment.size ⟨.token w.1, w.2.toList⟩ = w.2.utf8ByteSize :=
    Text.size_toList w.2
  have hword : Token.word ⟨w.1, Segment.lexeme ⟨.token w.1, w.2.toList⟩,
      ⟨offset, Segment.size ⟨.token w.1, w.2.toList⟩⟩⟩ = w := by
    rw [Segment.lexeme, String.ofList_toList]
    rfl
  rw [segments_lexeme hw hafter, layOut, hsize]
  constructor
  · rfl
  · rw [consSegment, List.map_cons, hword]

/-- **Spread lexemes are scanned back**, without a report. -/
theorem Scan.layOut_spread (offset : Nat) (gap : Nat → Gap) {words : List (Kind × String)}
    (h : ∀ w ∈ words, IsWord w) :
    (layOut offset (segments (spread gap (words.map Prod.snd)).toList)).reports = [] ∧
      (layOut offset (segments (spread gap (words.map Prod.snd)).toList)).tokens.map Token.word =
        words ++ [(.endOfFile, "")] := by
  induction words generalizing offset gap with
  | nil =>
      rw [List.map_nil, spread, String.toList_empty, segments]
      exact ⟨rfl, rfl⟩
  | cons w rest ih =>
      obtain ⟨hw, hrest⟩ := List.forall_mem_cons.1 h
      cases rest with
      | nil =>
          obtain ⟨hreports, hwords⟩ := words_lexeme hw Lexeme.blankFirst_nil offset
          rw [List.append_nil] at hreports hwords
          rw [List.map_singleton, spread, hreports, hwords, segments]
          exact ⟨rfl, rfl⟩
      | cons next rest =>
          have htext : (spread gap ((w :: next :: rest).map Prod.snd)).toList =
              w.2.toList ++ ((gap 0).text.toList ++
                (spread (fun i => gap (i + 1)) ((next :: rest).map Prod.snd)).toList) := by
            simp [spread]
          obtain ⟨hreports, hwords⟩ := words_lexeme hw ((gap 0).blankFirst _) offset
          rw [htext, hreports, hwords, layOut_blanks _ (gap 0).blank]
          obtain ⟨hreports', hwords'⟩ := ih _ (fun i => gap (i + 1)) hrest
          exact ⟨hreports', congrArg (w :: ·) hwords'⟩

/-! ## Scans -/

/-- The tokens of a scan are words of the language, and the mark of its end. -/
theorem words_of_scan (text : String) : ∃ tokens : List Token,
    (scan text).tokens = tokens ++ [Token.endAt text.utf8ByteSize] ∧
      ∀ t ∈ tokens, IsWord t.word := by
  obtain ⟨places, hcuts, hscan⟩ := cuts_scan text
  refine ⟨_, congrArg Scan.tokens hscan, ?_⟩
  intro t ht
  obtain ⟨⟨before, after, -, -, hlexeme, -⟩, -⟩ := hcuts.isLongest ht
  exact hlexeme

/-- The kind that a lexeme has on its own. -/
def Kind.ofLexeme (lexeme : String) : Kind :=
  ((scan lexeme).tokens.head?.map Token.kind).getD .endOfFile

theorem Kind.ofLexeme_empty : ofLexeme "" = .endOfFile := by
  rw [ofLexeme, scan, String.toList_empty, segments]
  rfl

theorem Kind.ofLexeme_of_isWord {w : Kind × String} (hw : IsWord w) : ofLexeme w.2 = w.1 := by
  obtain ⟨-, hwords⟩ := Scan.words_lexeme hw Lexeme.blankFirst_nil 0
  rw [List.append_nil] at hwords
  have htokens : (scan w.2).tokens.map Token.word = w :: _ := hwords
  unfold ofLexeme
  cases hscan : (scan w.2).tokens with
  | nil =>
      rw [hscan] at htokens
      cases htokens
  | cons t rest =>
      rw [hscan] at htokens
      exact congrArg Prod.fst (List.cons.inj htokens).1

/-- **Tokens print and rescan.** The lexemes of the tokens of any text, written out with any blanks
between them, are scanned without a report to the same kinds and lexemes in the same order. For the
kind of a token depends on nothing but its lexeme. -/
theorem scan_spread (text : String) (gap : Nat → Gap) :
    let lexemes := (scan text).tokens.dropLast.map (·.lexeme)
    (scan (spread gap lexemes)).reports = [] ∧
      (scan (spread gap lexemes)).tokens.map Token.word = (scan text).tokens.map Token.word ∧
      ∀ t ∈ (scan text).tokens, t.kind = Kind.ofLexeme t.lexeme := by
  intro lexemes
  obtain ⟨tokens, hscan, hwords⟩ := words_of_scan text
  have hlexemes : lexemes = (tokens.map Token.word).map Prod.snd := by
    show (scan text).tokens.dropLast.map _ = _
    rw [hscan, List.dropLast_concat, List.map_map]
    rfl
  have hspread := Scan.layOut_spread 0 gap (List.forall_mem_map.2 hwords)
  rw [← hlexemes] at hspread
  obtain ⟨hreports, hsame⟩ := hspread
  refine ⟨hreports, ?_, ?_⟩
  · rw [hscan, List.map_append]
    exact hsame
  · intro t ht
    rw [hscan, List.mem_append, List.mem_singleton] at ht
    rcases ht with ht | rfl
    · exact (Kind.ofLexeme_of_isWord (hwords t ht)).symm
    · exact Kind.ofLexeme_empty.symm

end Cmm
