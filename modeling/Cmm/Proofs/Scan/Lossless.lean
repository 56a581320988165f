import Cmm.Proofs.Scan.Exact

/-!
# A scan loses nothing

* `Cuts` — a text is cut into segments that stand one behind the other, each with its byte offset,
  and each fits in front of what follows it. `Cuts.unique` — there is one way to do so.
* `Segment.token?`, `Segment.report?` — what a segment at a byte offset yields.
* `cuts_segments` — the segments of a text cut it, and lay out to what they yield.
* `scan_lossless` — the tokens and the reports of a scan, in order, are what these segments yield; a
  token is a stretch of the text and the longest lexeme there.
-/

set_option autoImplicit false

namespace Cmm

/-- A text that begins at a byte offset is cut into segments, each with its own offset. -/
inductive Cuts : Nat → List Char → List (Nat × Segment) → Prop
  | nil {offset : Nat} : Cuts offset [] []
  | cons {offset : Nat} {s : Segment} {after : List Char} {places : List (Nat × Segment)}
      (fits : s.Fits after) (rest : Cuts (offset + s.size) after places) :
      Cuts offset (s.text ++ after) ((offset, s) :: places)

namespace Segment

/-- The token that a segment at a byte offset yields. -/
def token? (place : Nat × Segment) : Option Token :=
  match place.2.piece with
  | .token kind => some ⟨kind, place.2.lexeme, ⟨place.1, place.2.size⟩⟩
  | _ => none

/-- The report that a segment at a byte offset yields: it covers the segment, but of an open comment
it covers the two characters that open it. -/
def report? (place : Nat × Segment) : Option (Report LexicalFault) :=
  match place.2.piece with
  | .malformed fault =>
    some ⟨fault, ⟨place.1, if fault = .openComment then 2 else place.2.size⟩⟩
  | _ => none

end Segment

/-- A token is a stretch of a text, and of the lexemes that begin there the longest. -/
def Token.IsLongest (t : Token) (text : String) : Prop :=
  ∃ before after : String, text = before ++ t.lexeme ++ after ∧
    t.span = ⟨before.utf8ByteSize, t.lexeme.utf8ByteSize⟩ ∧
    Lexeme.IsLexeme t.kind t.lexeme.toList ∧
    ∀ kind lexeme, Lexeme.IsLexeme kind lexeme → lexeme <+: (t.lexeme ++ after).toList →
      lexeme.length ≤ t.lexeme.toList.length

/-- What a scan of a text yields, by the segments that the text is cut into. -/
structure Scan.Lossless (s : Scan) (text : String) (places : List (Nat × Segment)) : Prop where
  cuts : Cuts 0 text.toList places
  /-- The grammar cuts the text in no other way. -/
  only : ∀ places', Cuts 0 text.toList places' → places' = places
  whole : places.flatMap (·.2.text) = text.toList
  tokens : s.tokens = places.filterMap Segment.token? ++ [Token.endAt text.utf8ByteSize]
  longest : ∀ t ∈ places.filterMap Segment.token?,
    t.IsLongest text ∧ t.kind ≠ .endOfFile ∧ t.kind ≠ .invalid
  rising : (s.tokens.map (·.span.offset)).Pairwise (· < ·)
  reports : s.reports = places.filterMap Segment.report?
  reportsRising : (s.reports.map (·.span.offset)).Pairwise (· < ·)

theorem Segment.Fits.size_pos {s : Segment} {after : List Char} (h : s.Fits after) : 0 < s.size := by
  refine Nat.pos_of_ne_zero fun hzero => h.ne_nil ?_
  exact String.ofList_eq_empty_iff.1 (String.utf8ByteSize_eq_zero_iff.1 hzero)

theorem Segment.size_append (s : Segment) (cs : List Char) :
    (String.ofList (s.text ++ cs)).utf8ByteSize = s.size + (String.ofList cs).utf8ByteSize := by
  rw [String.ofList_append, String.utf8ByteSize_append]
  rfl

namespace Cuts

variable {offset : Nat} {text : List Char} {places places' : List (Nat × Segment)}

/-- **The grammar cuts a text in one way.** The induction is on the first cut: at each place the two
have the same segment, and so the same rest. -/
theorem unique (h : Cuts offset text places) (h' : Cuts offset text places') :
    places = places' := by
  induction h generalizing places' with
  | nil =>
      generalize htext : [] = text at h'
      cases h' with
      | nil => rfl
      | cons fits' => exact absurd (List.append_eq_nil_iff.1 htext.symm).1 fits'.ne_nil
  | @cons offset s after places fits rest ih =>
      generalize htext : s.text ++ after = text at h'
      cases h' with
      | nil => exact absurd (List.append_eq_nil_iff.1 htext).1 fits.ne_nil
      | cons fits' rest' =>
          obtain ⟨rfl, rfl⟩ := fits.unique fits' htext
          rw [ih rest']

theorem whole (h : Cuts offset text places) : places.flatMap (·.2.text) = text := by
  induction h with
  | nil => rfl
  | cons fits rest ih => rw [List.flatMap_cons, ih]

/-- A segment stands in the text at its offset. -/
theorem of_mem (h : Cuts offset text places) {place : Nat × Segment} (hp : place ∈ places) :
    ∃ before after, text = before ++ place.2.text ++ after ∧
      place.1 = offset + (String.ofList before).utf8ByteSize ∧ place.2.Fits after := by
  induction h with
  | nil => cases hp
  | @cons offset s after places fits rest ih =>
      rcases List.mem_cons.1 hp with rfl | hmem
      · exact ⟨[], after, rfl, rfl, fits⟩
      · obtain ⟨before, behind, rfl, hoffset, hfits⟩ := ih hmem
        refine ⟨s.text ++ before, behind, by simp, ?_, hfits⟩
        rw [Segment.size_append, hoffset]
        omega

/-- Segments stand one behind the other. -/
theorem rising (h : Cuts offset text places) :
    places.Pairwise (fun place later => place.1 < later.1) ∧
      ∀ place ∈ places, offset ≤ place.1 ∧ place.1 < offset + (String.ofList text).utf8ByteSize := by
  induction h with
  | nil => exact ⟨.nil, fun _ hp => nomatch hp⟩
  | @cons offset s after places fits rest ih =>
      obtain ⟨hpairs, hbounds⟩ := ih
      have hsize := fits.size_pos
      rw [Segment.size_append]
      constructor
      · refine .cons (fun place hp => ?_) hpairs
        have := (hbounds place hp).1
        show offset < place.1
        omega
      · intro place hp
        rcases List.mem_cons.1 hp with rfl | hmem
        · show offset ≤ offset ∧ offset < _
          omega
        · have := hbounds place hmem
          omega

/-- What segments yield has their offsets, so these increase. -/
theorem rising_filterMap {α : Type} {f : Nat × Segment → Option α} {start : α → Nat}
    (h : Cuts offset text places) (hf : ∀ place a, f place = some a → start a = place.1) :
    ((places.filterMap f).map start).Pairwise (· < ·) := by
  rw [List.pairwise_map, List.pairwise_filterMap]
  refine h.rising.1.imp fun hlt a ha b hb => ?_
  rw [hf _ a ha, hf _ b hb]
  exact hlt

end Cuts

/-! ## Scanning -/

theorem Segment.of_token? {place : Nat × Segment} {t : Token}
    (h : Segment.token? place = some t) : ∃ kind, place.2.piece = .token kind ∧
      t = ⟨kind, place.2.lexeme, ⟨place.1, place.2.size⟩⟩ := by
  unfold Segment.token? at h
  split at h
  · rename_i kind hpiece
    exact ⟨kind, hpiece, (Option.some.inj h).symm⟩
  · cases h

theorem Segment.offset_of_report? {place : Nat × Segment} {r : Report LexicalFault}
    (h : Segment.report? place = some r) : r.span.offset = place.1 := by
  unfold Segment.report? at h
  split at h
  · rw [← Option.some.inj h]
  · cases h

/-- A segment is laid out as what it yields, in front of what is behind it. -/
theorem Scan.consSegment_eq (s : Segment) (offset : Nat) (places : List (Nat × Segment))
    (tokens : List Token) :
    Scan.consSegment s offset
        ⟨places.filterMap Segment.token? ++ tokens, places.filterMap Segment.report?⟩ =
      ⟨((offset, s) :: places).filterMap Segment.token? ++ tokens,
        ((offset, s) :: places).filterMap Segment.report?⟩ := by
  obtain ⟨piece, text⟩ := s
  cases piece with
  | blank | comment | token => rfl
  | malformed fault => cases fault <;> rfl

/-- The segments of a text cut it, and what they yield is what they lay out to. -/
theorem cuts_segments (offset : Nat) (text : List Char) : ∃ places, Cuts offset text places ∧
    Scan.layOut offset (segments text) =
      ⟨places.filterMap Segment.token? ++
        [Token.endAt (offset + (String.ofList text).utf8ByteSize)],
        places.filterMap Segment.report?⟩ := by
  induction text using segments.induct generalizing offset with
  | case1 =>
      rw [segments]
      exact ⟨[], .nil, rfl⟩
  | case2 c cs piece n hpiece ih =>
      have hfits := Lexeme.fits_pieceAt c cs
      rw [hpiece] at hfits
      generalize hs : Segment.mk piece (c :: cs.take n) = s at hfits
      have htext : c :: cs = s.text ++ cs.drop n := by
        rw [← hs, List.cons_append, List.take_append_drop]
      obtain ⟨places, hcuts, hlater⟩ := ih (offset + s.size)
      refine ⟨(offset, s) :: places, ?_, ?_⟩
      · rw [htext]
        exact .cons hfits hcuts
      · rw [segments, hpiece]
        dsimp only
        rw [hs, Scan.layOut, hlater, htext, Segment.size_append, ← Nat.add_assoc]
        exact Scan.consSegment_eq s offset places _

theorem Cuts.isLongest {text : String} {places : List (Nat × Segment)}
    (h : Cuts 0 text.toList places) {t : Token} (ht : t ∈ places.filterMap Segment.token?) :
    t.IsLongest text ∧ t.kind ≠ .endOfFile ∧ t.kind ≠ .invalid := by
  obtain ⟨⟨offset, s⟩, hmem, hyield⟩ := List.mem_filterMap.1 ht
  obtain ⟨before, after, htext, hoffset, hfits⟩ := h.of_mem hmem
  obtain ⟨kind, hpiece, rfl⟩ := Segment.of_token? hyield
  have hlexeme : Lexeme.IsLexeme kind s.text := by
    have := hfits.shape
    unfold Segment.HasShape at this
    rwa [hpiece] at this
  refine ⟨⟨String.ofList before, String.ofList after, ?_, ?_, ?_, ?_⟩, hlexeme.kind_ne⟩
  · rw [← @String.ofList_toList text, htext, String.ofList_append, String.ofList_append]
    rfl
  · rw [Nat.zero_add] at hoffset
    rw [hoffset]
    rfl
  · rw [Segment.lexeme, String.toList_ofList]
    exact hlexeme
  · intro kind' lexeme h' hp
    rw [Segment.lexeme, String.toList_append, String.toList_ofList, String.toList_ofList] at hp
    have := hfits.munches kind' lexeme h' hp
    rw [hpiece] at this
    rw [Segment.lexeme, String.toList_ofList]
    exact this

/-- A scan is what the segments of the text yield. -/
theorem cuts_scan (text : String) : ∃ places, Cuts 0 text.toList places ∧
    scan text = ⟨places.filterMap Segment.token? ++ [Token.endAt text.utf8ByteSize],
      places.filterMap Segment.report?⟩ := by
  obtain ⟨places, hcuts, hscan⟩ := cuts_segments 0 text.toList
  rw [Nat.zero_add, String.ofList_toList] at hscan
  exact ⟨places, hcuts, hscan⟩

/-- **A scan loses nothing.** The lexical grammar cuts every text in one way. The tokens of a scan
and its reports are, in order, what the segments yield: a token the text of its segment, a malformed
segment one report that covers it. -/
theorem scan_lossless (text : String) : ∃ places, (scan text).Lossless text places := by
  obtain ⟨places, hcuts, hscan⟩ := cuts_scan text
  obtain ⟨hpairs, hbounds⟩ := hcuts.rising
  refine ⟨places, hcuts, fun _ h => h.unique hcuts, hcuts.whole, ?_, ?_, ?_, ?_, ?_⟩
  · rw [hscan]
  · intro t ht
    exact hcuts.isLongest ht
  · rw [hscan, List.map_append, List.pairwise_append]
    refine ⟨hcuts.rising_filterMap ?_, List.pairwise_singleton _ _, ?_⟩
    · intro place t ht
      obtain ⟨kind, -, rfl⟩ := Segment.of_token? ht
      rfl
    · intro offset hoffset total htotal
      obtain ⟨t, ht, rfl⟩ := List.mem_map.1 hoffset
      obtain ⟨place, hmem, hyield⟩ := List.mem_filterMap.1 ht
      obtain ⟨kind, -, rfl⟩ := Segment.of_token? hyield
      cases List.mem_singleton.1 htotal
      have := (hbounds place hmem).2
      rwa [Nat.zero_add, String.ofList_toList] at this
  · rw [hscan]
  · rw [hscan]
    exact hcuts.rising_filterMap fun place r hr => Segment.offset_of_report? hr

end Cmm
