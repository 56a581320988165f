import Cmm.Diagnostic
import Cmm.Proofs.Lines
import Cmm.Proofs.Relabel.Programs
import Cmm.Proofs.Scan.Lossless

/-!
# Every diagnostic points into its source

Nothing that reads or checks a program makes up a place: spans come from tokens, and compound
constructs have the hulls of spans that are there. Instead of following the spans through the reader
and the checks, the spans of a program are cut off at the end of its text. Its tokens stay as they
are, and what is reported is cut off with them, so it had nothing behind the end.

* `Relabel.clipped` — places are cut off at a byte, and names stay.
* `Fault.quoted` — the places that a message names besides its own.
* `Analysis.within_ofTokens` — tokens within a text are reported on within it.
* `scan_within` — so are the pieces of a text that are no tokens, and its tokens are within it.
* `diagnostics_point_into_source` — every diagnostic of a text is shown on the line and in the
  column that it is about.
-/

set_option autoImplicit false

namespace Cmm

/-- The span ends within a text of so many bytes. -/
def Span.Within (s : Span) (size : Nat) : Prop := s.stop ≤ size

/-! ## Cutting places off -/

/-- The part of a span in front of a byte. -/
def Span.clip (size : Nat) (s : Span) : Span :=
  ⟨min s.offset size, min s.stop size - min s.offset size⟩

namespace Span

theorem offset_clip (size : Nat) (s : Span) : (s.clip size).offset = min s.offset size := rfl

theorem eq_of_stop {a b : Span} (first : a.offset = b.offset) (last : a.stop = b.stop) : a = b := by
  obtain ⟨offset, length⟩ := a
  obtain ⟨offset', length'⟩ := b
  simp only [stop, Span.mk.injEq] at *
  omega

@[simp] theorem stop_clip (size : Nat) (s : Span) : (s.clip size).stop = min s.stop size := by
  have hle : min s.offset size ≤ min s.stop size := by
    unfold stop
    omega
  show min s.offset size + (min s.stop size - min s.offset size) = min s.stop size
  omega

theorem clip_eq_iff {size : Nat} {s : Span} : s.clip size = s ↔ s.Within size := by
  constructor
  · intro h
    rw [Within, ← h, stop_clip]
    exact Nat.min_le_right _ _
  · intro h
    apply eq_of_stop
    · exact Nat.min_eq_left (Nat.le_trans (Nat.le_add_right _ _) h)
    · rw [stop_clip]
      exact Nat.min_eq_left h

theorem clip_hull (size : Nat) (a b : Span) :
    (a.hull b).clip size = (a.clip size).hull (b.clip size) := by
  apply eq_of_stop
  · rw [offset_clip, offset_hull, offset_hull, offset_clip, offset_clip]
    omega
  · rw [stop_clip, stop_hull, stop_hull, stop_clip, stop_clip]
    omega

end Span

namespace Relabel

/-- Names stay, and every span is cut off at a byte. -/
def clipped (size : Nat) : Relabel where
  name := id
  place := Span.clip size
  injective := Function.injective_id
  hull := Span.clip_hull size
  start := by simp [Span.clip, Span.stop]
  stop := fun s => by
    rw [Span.stop_clip]
    simp [Span.clip, Span.stop]

theorem token_clipped_eq_iff {size : Nat} {t : Token} :
    (clipped size).token t = t ↔ t.span.Within size := by
  obtain ⟨kind, text, span⟩ := t
  have hlexeme : (clipped size).lexeme kind text = text := by
    cases kind <;> rfl
  simp only [token, hlexeme, Token.mk.injEq, true_and]
  exact Span.clip_eq_iff

end Relabel

/-- The places that a message names besides the one it is shown at. -/
def Fault.quoted : Fault → List Span
  | .semantic (.redeclared _ previous) => [previous]
  | _ => []

/-- A report that is shown within a text, and names no place but in it. -/
structure Report.Within (r : Report Fault) (size : Nat) : Prop where
  span : r.span.Within size
  quoted : ∀ previous ∈ r.fault.quoted, previous.Within size

/-- A report stays as it is only if nothing of it is cut off. -/
theorem Report.within_of_clipped {size : Nat} {r : Report Fault}
    (h : (Relabel.clipped size).anyReport r = r) : r.Within size := by
  constructor
  · have hspan : r.span.clip size = r.span := congrArg Report.span h
    exact Span.clip_eq_iff.1 hspan
  · intro previous hprevious
    have hfault : (Relabel.clipped size).anyFault r.fault = r.fault := congrArg Report.fault h
    generalize r.fault = fault at hfault hprevious
    unfold Fault.quoted at hprevious
    split at hprevious
    · cases List.mem_singleton.1 hprevious
      injection hfault with hfault
      injection hfault with hname hplace
      exact Span.clip_eq_iff.1 hplace
    · cases hprevious

/-- **Reading and checking make up no place**: tokens within a text are reported on within it. -/
theorem Analysis.within_ofTokens {size : Nat} {tokens : List Token}
    (h : ∀ t ∈ tokens, t.span.Within size) : ∀ r ∈ (ofTokens tokens).reports, r.Within size := by
  have hstay : tokens.map (Relabel.clipped size).token = tokens := by
    conv_rhs => rw [← List.map_id tokens]
    apply List.map_congr_left
    intro t ht
    exact Relabel.token_clipped_eq_iff.2 (h t ht)
  have hreports := (mirrors_ofTokens (Relabel.clipped size) tokens).reports
  rw [hstay] at hreports
  have hsame : (ofTokens tokens).reports.map (Relabel.clipped size).anyReport =
      (ofTokens tokens).reports.map id := by
    rw [List.map_id, ← hreports]
  intro r hr
  apply Report.within_of_clipped
  exact List.map_inj_left.1 hsame r hr

/-! ## Pieces of a text -/

/-- A segment that cuts a text takes up a stretch of it. -/
theorem Cuts.within {text : String} {places : List (Nat × Segment)}
    (h : Cuts 0 text.toList places) {place : Nat × Segment} (hp : place ∈ places) :
    place.1 + place.2.size ≤ text.utf8ByteSize := by
  obtain ⟨before, after, htext, hoffset, -⟩ := h.of_mem hp
  have hsize := congrArg Text.size htext
  rw [Text.size_toList, Text.size_append, Text.size_append] at hsize
  have hplace : place.1 = Text.size before := by
    rw [hoffset, Nat.zero_add]
    rfl
  have hsegment : Text.size place.2.text = place.2.size := rfl
  omega

/-- The two characters that open a comment are there. -/
theorem Segment.Fits.two_le_size {s : Segment} {after : List Char} (h : s.Fits after)
    (hs : s.piece = .malformed .openComment) : 2 ≤ s.size := by
  obtain ⟨piece, text⟩ := s
  obtain rfl : piece = .malformed .openComment := hs
  have hshape : Lexeme.IsMalformed .openComment text after := h.shape
  cases hshape with
  | @openComment body never =>
      show 2 ≤ Text.size (['/', '*'] ++ body)
      rw [Text.size_append]
      exact Nat.le_add_right 2 _

theorem Segment.within_of_report? {place : Nat × Segment} {after : List Char}
    (hfits : place.2.Fits after) {r : Report LexicalFault}
    (h : Segment.report? place = some r) : r.span.stop ≤ place.1 + place.2.size := by
  unfold Segment.report? at h
  split at h
  · rename_i fault hpiece
    cases Option.some.inj h
    show place.1 + (if fault = .openComment then 2 else place.2.size) ≤ _
    split
    · rename_i hopen
      have := hfits.two_le_size (hopen ▸ hpiece)
      omega
    · exact Nat.le_refl _
  · cases h

/-- **A scan stays within its text**, with the tokens and with the reports. -/
theorem scan_within (text : String) :
    (∀ t ∈ (scan text).tokens, t.span.Within text.utf8ByteSize) ∧
      ∀ r ∈ (scan text).reports, r.span.Within text.utf8ByteSize := by
  obtain ⟨places, hcuts, hscan⟩ := cuts_scan text
  rw [hscan]
  constructor
  · intro t ht
    rw [List.mem_append, List.mem_singleton] at ht
    rcases ht with ht | rfl
    · obtain ⟨place, hmem, hyield⟩ := List.mem_filterMap.1 ht
      obtain ⟨kind, -, rfl⟩ := Segment.of_token? hyield
      exact hcuts.within hmem
    · exact Nat.le_refl _
  · intro r hr
    obtain ⟨place, hmem, hyield⟩ := List.mem_filterMap.1 hr
    obtain ⟨-, after, -, -, hfits⟩ := hcuts.of_mem hmem
    exact Nat.le_trans (Segment.within_of_report? hfits hyield) (hcuts.within hmem)

/-! ## Diagnostics -/

/-- What is reported on a text, whether or not it is all tokens: the pieces that are none, and what
reading and checking the others find. -/
def reportsOn (text : String) : List (Report Fault) :=
  (scan text).reports.map (·.map Fault.lexical) ++ (Analysis.ofTokens (scan text).tokens).reports

theorem within_of_mem_reportsOn {text : String} {r : Report Fault} (h : r ∈ reportsOn text) :
    r.Within text.utf8ByteSize := by
  obtain ⟨htokens, hlexical⟩ := scan_within text
  rcases List.mem_append.1 h with hr | hr
  · obtain ⟨x, hx, rfl⟩ := List.mem_map.1 hr
    exact ⟨hlexical x hx, nofun⟩
  · exact Analysis.within_ofTokens htokens r hr

/-- **Every diagnostic points into its source.** Whatever is reported on a text is shown with a
location and a line, and these show the place of the report: the line is one of the text, in full,
and from its beginning the column leads to a stretch that ends within the text. So does every place
that a note quotes. -/
theorem diagnostics_point_into_source (file text : String) :
    let src := Source.ofText file text
    ∀ r ∈ reportsOn text,
      (∃ location line, (r.diagnostic src).location? = some location ∧
        (r.diagnostic src).line? = some line ∧ src.Shows text r.span location line) ∧
      ∀ previous ∈ r.fault.quoted, ∃ line, src.Shows text previous (src.locate previous) line := by
  intro src r hr
  have hwithin := within_of_mem_reportsOn hr
  constructor
  · exact ⟨_, _, rfl, rfl, Source.shows_locate file text hwithin.span⟩
  · intro previous hprevious
    exact ⟨_, Source.shows_locate file text (hwithin.quoted previous hprevious)⟩

end Cmm
