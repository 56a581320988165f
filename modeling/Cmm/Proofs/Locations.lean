import Cmm.Proofs.Lines

/-!
# Locations by bytes

What a location says of a place, in terms of the bytes of the text alone.

* `Text.bytes` — the bytes of a text; `Text.encoded` — those of a list of characters. A newline byte
  stands for a newline and is no part of another character (`newline_mem_encode_iff`).
* `Source.lineAt_reaches` — the line that the search finds reaches up to the place searched for.
* `Text.intercalate_lines` — the lines of a text, with newlines between them, are the text.
* `Source.locates_exactly` — the line, the column and the text of the line that a place is shown
  with.
-/

set_option autoImplicit false

namespace Cmm

namespace Text

/-- The bytes of a text. -/
def bytes (text : String) : List UInt8 := text.toUTF8.data.toList

/-- The byte of a newline. -/
def newline : UInt8 := 10

/-- The bytes of some characters. -/
def encoded (text : List Char) : List UInt8 := text.flatMap String.utf8EncodeChar

theorem bytes_eq (text : String) : bytes text = encoded text.toList := by
  rw [bytes, String.toUTF8_eq_toByteArray, ← String.utf8Encode_toList, List.utf8Encode,
    List.data_toByteArray]
  rfl

theorem bytes_ofList (text : List Char) : bytes (String.ofList text) = encoded text := by
  rw [bytes_eq, String.toList_ofList]

theorem encoded_injective {xs ys : List Char} (h : encoded xs = encoded ys) : xs = ys := by
  rw [← bytes_ofList, ← bytes_ofList] at h
  have hbytes : (String.ofList xs).toByteArray = (String.ofList ys).toByteArray :=
    ByteArray.ext (Array.toList_inj.1 h)
  exact String.ofList_injective (String.toByteArray_inj.1 hbytes)

theorem encoded_append (xs ys : List Char) : encoded (xs ++ ys) = encoded xs ++ encoded ys :=
  List.flatMap_append

theorem encoded_newline_cons (xs : List Char) : encoded ('\n' :: xs) = newline :: encoded xs := rfl

theorem length_encoded (text : List Char) : (encoded text).length = size text := by
  induction text with
  | nil => rfl
  | cons c rest ih =>
      rw [encoded, List.flatMap_cons, List.length_append, String.length_utf8EncodeChar, size_cons,
        ← ih]
      rfl

/-- A newline is a byte of no character but itself: its code is below 128, and the bytes of a
character that takes several are not. -/
theorem newline_mem_encode_iff {c : Char} : newline ∈ String.utf8EncodeChar c ↔ c = '\n' := by
  constructor
  · intro h
    have hnot : ∀ n : Nat, 128 ≤ n → n < 256 → newline ≠ UInt8.ofNat n := by
      intro n hlow hhigh heq
      have hcode := congrArg UInt8.toNat heq
      rw [UInt8.toNat_ofNat_of_lt' hhigh] at hcode
      have : newline.toNat = 10 := rfl
      omega
    unfold String.utf8EncodeChar at h
    dsimp only at h
    split at h
    · rename_i hascii
      have hcode := congrArg UInt8.toNat (List.mem_singleton.1 h)
      rw [UInt8.toNat_ofNat_of_lt' (show c.val.toNat < 256 by omega)] at hcode
      exact Char.ext (UInt32.toNat_inj.1 hcode.symm)
    · exfalso
      split at h
      · simp only [List.mem_cons, List.not_mem_nil, or_false] at h
        rcases h with h | h <;> exact hnot _ (by omega) (by omega) h
      · split at h
        · simp only [List.mem_cons, List.not_mem_nil, or_false] at h
          rcases h with h | h | h <;> exact hnot _ (by omega) (by omega) h
        · simp only [List.mem_cons, List.not_mem_nil, or_false] at h
          rcases h with h | h | h | h <;> exact hnot _ (by omega) (by omega) h
  · rintro rfl
    decide

/-- There are as many newline bytes as newlines. -/
theorem count_encoded (text : List Char) : (encoded text).count newline = text.count '\n' := by
  induction text with
  | nil => rfl
  | cons c rest ih =>
      rw [encoded, List.flatMap_cons, List.count_append, List.count_cons, ← ih, Nat.add_comm]
      congr 1
      by_cases hc : c = '\n'
      · subst hc
        decide
      · rw [List.count_eq_zero.2 (mt newline_mem_encode_iff.1 hc)]
        simp [hc]

theorem newline_notMem_encoded {line : List Char} (h : '\n' ∉ line) : newline ∉ encoded line := by
  rw [← List.count_eq_zero, count_encoded, List.count_eq_zero]
  exact h

/-! ## Bytes on a line -/

/-- The bytes behind the last newline. -/
def column (before : List UInt8) : Nat := (before.reverse.takeWhile (· != newline)).length

/-- Bytes without a newline are counted from the beginning of their line. -/
theorem column_append {before line : List UInt8} (hline : newline ∉ line)
    (hbefore : before = [] ∨ ∃ front, before = front ++ [newline]) :
    column (before ++ line) = line.length := by
  have hall : ∀ b ∈ line.reverse, (b != newline) = true := by
    intro b hb
    rw [List.mem_reverse] at hb
    rw [bne_iff_ne]
    rintro rfl
    exact hline hb
  have hnone : before.reverse.takeWhile (· != newline) = [] := by
    rcases hbefore with rfl | ⟨front, rfl⟩
    · rfl
    · simp
  rw [column, List.reverse_append, List.takeWhile_append_of_pos hall, hnone, List.append_nil,
    List.length_reverse]

/-- A line ends at its newline. -/
theorem takeWhile_line {line after : List UInt8} (hline : newline ∉ line)
    (hafter : after = [] ∨ ∃ behind, after = newline :: behind) :
    (line ++ after).takeWhile (· != newline) = line := by
  have hall : ∀ b ∈ line, (b != newline) = true := by
    intro b hb
    rw [bne_iff_ne]
    rintro rfl
    exact hline hb
  have hnone : after.takeWhile (· != newline) = [] := by
    rcases hafter with rfl | ⟨behind, rfl⟩
    · rfl
    · simp
  rw [List.takeWhile_append_of_pos hall, hnone, List.append_nil]

/-- On a line, the bytes before a place hold one newline for every line above, the bytes behind the
last of them lead from the beginning of the line to the place, and those from there to the next
newline are the line. -/
theorem IsLine.placed {text line : List Char} {number first offset : Nat}
    (h : IsLine text number first line) (hfrom : first ≤ offset)
    (hto : offset ≤ first + size line) :
    number = ((encoded text).take offset).count newline + 1 ∧
      column ((encoded text).take offset) = offset - first ∧
      ((encoded text).drop first).takeWhile (· != newline) = encoded line := by
  obtain ⟨hline, before, after, rfl, rfl, rfl, hbefore, hafter⟩ := h
  obtain ⟨k, rfl⟩ := Nat.exists_eq_add_of_le hfrom
  have hk : k ≤ (encoded line).length := by
    rw [length_encoded]
    omega
  have htext : encoded (before ++ line ++ after) =
      encoded before ++ (encoded line ++ encoded after) := by
    rw [encoded_append, encoded_append, List.append_assoc]
  have htake : (encoded (before ++ line ++ after)).take (size before + k) =
      encoded before ++ (encoded line).take k := by
    rw [htext, ← length_encoded before, List.take_length_add_append,
      List.take_append_of_le_length hk]
  have hbytes : newline ∉ encoded line := newline_notMem_encoded hline
  have hstart : newline ∉ (encoded line).take k := fun h => hbytes (List.mem_of_mem_take h)
  have hopens : encoded before = [] ∨ ∃ front, encoded before = front ++ [newline] := by
    rcases hbefore with rfl | ⟨front, rfl⟩
    · exact .inl rfl
    · exact .inr ⟨encoded front, encoded_append front ['\n']⟩
  have hcloses : encoded after = [] ∨ ∃ behind, encoded after = newline :: behind := by
    rcases hafter with rfl | ⟨behind, rfl⟩
    · exact .inl rfl
    · exact .inr ⟨encoded behind, encoded_newline_cons behind⟩
  refine ⟨?_, ?_, ?_⟩
  · rw [htake, List.count_append, count_encoded, List.count_eq_zero.2 hstart, Nat.add_zero]
  · rw [htake, column_append hstart hopens, List.length_take_of_le hk, Nat.add_sub_cancel_left]
  · rw [htext, ← length_encoded before, List.drop_left, takeWhile_line hbytes hcloses]

/-- A place is on one line only. -/
theorem IsLine.unique {text line line' : List Char} {number number' first first' offset : Nat}
    (h : IsLine text number first line) (h' : IsLine text number' first' line')
    (hfrom : first ≤ offset) (hto : offset ≤ first + size line)
    (hfrom' : first' ≤ offset) (hto' : offset ≤ first' + size line') :
    number = number' ∧ first = first' ∧ line = line' := by
  obtain ⟨hnumber, hcolumn, hline⟩ := h.placed hfrom hto
  obtain ⟨hnumber', hcolumn', hline'⟩ := h'.placed hfrom' hto'
  obtain rfl : first = first' := by
    omega
  exact ⟨hnumber.trans hnumber'.symm, rfl, encoded_injective (hline.symm.trans hline')⟩

/-- The lines of a text, with newlines between them, are the text. -/
theorem intercalate_lines (text : List Char) : ['\n'].intercalate (lines text) = text := by
  induction text using byLines with
  | last line hline => rw [lines_of_not_mem hline, List.intercalate_singleton]
  | more line after hline ih =>
      have hne : lines after ≠ [] := by
        rw [← List.length_pos_iff, length_lines]
        exact Nat.succ_pos _
      rw [lines_append hline, List.intercalate_cons_of_ne_nil hne, ih]
      simp

end Text

namespace Source

variable {offset number start n first : Nat} {lines : List String}

/-- The line that is found reaches up to the place searched for. -/
theorem lineAt_reaches (h : lineAt offset number start lines = some (n, first)) :
    ∃ i line, n = number + i ∧ lines[i]? = some line ∧ offset ≤ first + line.utf8ByteSize := by
  induction lines generalizing number start with
  | nil => cases h
  | cons line rest ih =>
      rw [lineAt] at h
      split at h
      · rename_i hle
        cases h
        exact ⟨0, line, rfl, rfl, hle⟩
      · obtain ⟨i, found, hnumber, hentry, hreach⟩ := ih h
        exact ⟨i + 1, found, by omega, hentry, hreach⟩

/-- A place in a text, or right behind it, is located on the line that it is on. -/
theorem exists_locate (file text : String) {span : Span}
    (inside : span.offset ≤ text.utf8ByteSize) : ∃ i first line,
      (ofText file text).locate span = ⟨file, i + 1, span.offset - first + 1, span.length⟩ ∧
      (ofText file text).lineText (i + 1) = String.ofList line ∧
      Text.IsLine text.toList (i + 1) first line ∧ first ≤ span.offset ∧
      span.offset ≤ first + Text.size line := by
  rw [← Text.size_toList] at inside
  obtain ⟨i, first, line, hlookup, hline, hentry, hfrom⟩ := lineAt_lines inside 1 0
  rw [Nat.zero_add, Nat.zero_add, Nat.add_comm 1 i] at hlookup
  have hfound : lineAt span.offset 1 0 (ofText file text).lines = some (i + 1, first) := hlookup
  refine ⟨i, first, line, ?_, by simp [lineText, ofText, hentry], hline, hfrom, ?_⟩
  · rw [locate, hfound]
    rfl
  · obtain ⟨j, found, hnumber, hfound, hreach⟩ := lineAt_reaches hlookup
    obtain rfl : i = j := by omega
    rw [List.getElem?_map, hentry] at hfound
    cases hfound
    exact hreach

/-- The texts of all lines, first to last. -/
theorem map_lineText (src : Source) :
    (List.range' 1 src.lines.length).map src.lineText = src.lines := by
  refine List.ext_getElem (by simp) fun i _ hi => ?_
  rw [List.getElem_map, List.getElem_range', Nat.mul_comm, Nat.mul_one, Nat.add_comm, lineText]
  simp [hi]

theorem lineText_of_out {src : Source} {number : Nat}
    (h : number = 0 ∨ src.lines.length < number) : src.lineText number = "" := by
  rcases h with rfl | h
  · rfl
  · obtain ⟨i, rfl⟩ := Nat.exists_eq_add_of_le' (Nat.one_le_of_lt h)
    have hnone : src.lines[i]? = none := List.getElem?_eq_none (by omega)
    simp [lineText, hnone]

/-- **Lines and columns are exact.** Of a place in a text, or right behind it, the line is counted
by the newlines before it, the column by the bytes since the last of these, and the text shown is
the whole line without its newline. The texts of all lines, with newlines between them, are the
text; no other number has a line. -/
theorem locates_exactly (file text : String) :
    let src := ofText file text
    let last := (Text.bytes text).count Text.newline + 1
    (∀ span : Span, span.offset ≤ text.utf8ByteSize →
      let before := (Text.bytes text).take span.offset
      let location := src.locate span
      location.file = file ∧ location.length = span.length ∧
        location.line = before.count Text.newline + 1 ∧
        location.column = (before.reverse.takeWhile (· != Text.newline)).length + 1 ∧
        Text.bytes (src.lineText location.line) =
          ((Text.bytes text).drop (span.offset - (location.column - 1))).takeWhile
            (· != Text.newline)) ∧
      "\n".intercalate ((List.range' 1 last).map src.lineText) = text ∧
      ∀ number, number = 0 ∨ last < number → src.lineText number = "" := by
  intro src last
  have hlast : src.lines.length = last := by
    show ((Text.lines text.toList).map String.ofList).length =
      (Text.bytes text).count Text.newline + 1
    rw [List.length_map, Text.length_lines, Text.bytes_eq, Text.count_encoded]
  refine ⟨fun span inside => ?_, ?_, fun number hout => lineText_of_out (hlast ▸ hout)⟩
  · obtain ⟨i, first, line, hlocate, hshown, hline, hfrom, hreach⟩ := exists_locate file text inside
    obtain ⟨hnumber, hcolumn, htext⟩ := hline.placed hfrom hreach
    rw [Text.bytes_eq, hlocate]
    dsimp only
    rw [hshown, Text.bytes_ofList]
    refine ⟨rfl, rfl, hnumber, congrArg (· + 1) hcolumn.symm, ?_⟩
    rw [Nat.add_sub_cancel, Nat.sub_sub_self hfrom, htext]
  · rw [← hlast, map_lineText]
    apply String.toList_injective
    rw [String.toList_intercalate]
    show ['\n'].intercalate (((Text.lines text.toList).map String.ofList).map String.toList) = _
    rw [List.map_map]
    simp [Function.comp_def, Text.intercalate_lines]

/-- A place behind a character of two bytes, on the third and last line. -/
theorem locates_exactly_multibyte :
    let src := ofText "t.c" "é\n\nβ;"
    (⟨6, 1⟩ : Span).offset ≤ "é\n\nβ;".utf8ByteSize ∧ 3 < 4 ∧
      (src.locate ⟨6, 1⟩).line = 3 ∧ (src.locate ⟨6, 1⟩).column = 3 ∧
      Text.bytes (src.lineText 3) = Text.bytes "β;" ∧ src.lineText 4 = "" := by
  intro src
  have inside : (⟨6, 1⟩ : Span).offset ≤ "é\n\nβ;".utf8ByteSize := by decide
  obtain ⟨hplace, -, hout⟩ := locates_exactly "t.c" "é\n\nβ;"
  obtain ⟨-, -, hline, hcolumn, htext⟩ := hplace ⟨6, 1⟩ inside
  have hthird : (src.locate ⟨6, 1⟩).line = 3 := hline.trans (by decide)
  have hbyte : (src.locate ⟨6, 1⟩).column = 3 := hcolumn.trans (by decide)
  rw [hthird, hbyte] at htext
  exact ⟨inside, by decide, hthird, hbyte, htext.trans (by decide), hout 4 (.inr (by decide))⟩

end Source

end Cmm
