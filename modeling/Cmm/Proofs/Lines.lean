import Cmm.Source

/-!
# Lines of a text

* `Text.byLines` — induction over the lines of a text.
* `Text.IsLine` — a stretch of a text between two newlines, or between a newline and an end of the
  text, with its number and its first byte.
* `Source.lineAt_lines` — every byte of a text, and the place right behind the last one, is on a
  line, and the search for it finds that line.
* `Source.Shows` — a location names the place of a span that lies in the text;
  `Source.shows_locate` — the location of such a span does.
-/

set_option autoImplicit false

namespace Cmm

namespace Text

/-- A text is its last line, or a line, a newline and more lines. -/
theorem byLines {motive : List Char → Prop} (last : ∀ line, '\n' ∉ line → motive line)
    (more : ∀ line after, '\n' ∉ line → motive after → motive (line ++ '\n' :: after))
    (text : List Char) : motive text := by
  -- The line that is being read is kept in front of the induction.
  suffices h : ∀ line, '\n' ∉ line → motive (line ++ text) from h [] List.not_mem_nil
  induction text with
  | nil =>
      intro line hline
      rw [List.append_nil]
      exact last line hline
  | cons c text ih =>
      intro line hline
      by_cases hc : c = '\n'
      · subst hc
        exact more line text hline (ih [] List.not_mem_nil)
      · have hsnoc : '\n' ∉ line ++ [c] := by
          simp [hline, Ne.symm hc]
        simpa using ih (line ++ [c]) hsnoc

theorem lines_of_not_mem {line : List Char} (h : '\n' ∉ line) : lines line = [line] := by
  induction line with
  | nil => rfl
  | cons c line ih =>
      rw [List.mem_cons, not_or] at h
      obtain ⟨hc, hline⟩ := h
      rw [lines_cons, if_neg (Ne.symm hc), ih hline]
      rfl

theorem lines_append {line : List Char} (h : '\n' ∉ line) (after : List Char) :
    lines (line ++ '\n' :: after) = line :: lines after := by
  induction line with
  | nil => rfl
  | cons c line ih =>
      rw [List.mem_cons, not_or] at h
      obtain ⟨hc, hline⟩ := h
      rw [List.cons_append, lines_cons, if_neg (Ne.symm hc), ih hline]
      rfl

/-- There is one line more than there are newlines. -/
theorem length_lines (text : List Char) : (lines text).length = text.count '\n' + 1 := by
  induction text using byLines with
  | last line hline => simp [lines_of_not_mem hline, List.count_eq_zero.2 hline]
  | more line after hline ih => simp [lines_append hline, List.count_eq_zero.2 hline, ih]

/-- The number of bytes of a text. -/
def size (text : List Char) : Nat := (String.ofList text).utf8ByteSize

@[simp] theorem size_nil : size [] = 0 := rfl

@[simp] theorem size_append (xs ys : List Char) : size (xs ++ ys) = size xs + size ys := by
  rw [size, String.ofList_append, String.utf8ByteSize_append]
  rfl

theorem size_cons (c : Char) (xs : List Char) : size (c :: xs) = c.utf8Size + size xs := by
  rw [← List.singleton_append, size_append]
  congr 1
  simp [size]

@[simp] theorem size_newline_cons (xs : List Char) : size ('\n' :: xs) = size xs + 1 := by
  rw [Nat.add_comm]
  exact size_append ['\n'] xs

theorem size_toList (text : String) : size text.toList = text.utf8ByteSize := by
  rw [size, String.ofList_toList]

/-- A stretch of a text without a newline in it, but with one on either side where the text does
not end there. It is known by its number, counted from one, and by its first byte. -/
structure IsLine (text : List Char) (number start : Nat) (line : List Char) : Prop where
  unbroken : '\n' ∉ line
  stands : ∃ before after, text = before ++ line ++ after ∧ number = before.count '\n' + 1 ∧
    start = size before ∧ (before = [] ∨ ∃ front, before = front ++ ['\n']) ∧
    (after = [] ∨ ∃ behind, after = '\n' :: behind)

theorem isLine_last {line : List Char} (h : '\n' ∉ line) : IsLine line 1 0 line :=
  ⟨h, [], [], by simp, by simp, by simp, .inl rfl, .inl rfl⟩

theorem isLine_first {line : List Char} (h : '\n' ∉ line) (after : List Char) :
    IsLine (line ++ '\n' :: after) 1 0 line :=
  ⟨h, [], '\n' :: after, by simp, by simp, by simp, .inl rfl, .inr ⟨after, rfl⟩⟩

/-- A line keeps its text when another line comes in front. -/
theorem IsLine.later {after line : List Char} {number start : Nat}
    (h : IsLine after number start line) {front : List Char} (hfront : '\n' ∉ front) :
    IsLine (front ++ '\n' :: after) (number + 1) (size front + 1 + start) line := by
  obtain ⟨hline, before, behind, rfl, rfl, rfl, hbefore, hbehind⟩ := h
  refine ⟨hline, front ++ '\n' :: before, behind, by simp, ?_, ?_, .inr ?_, hbehind⟩
  · simp [List.count_eq_zero.2 hfront]
  · simp
    omega
  · rcases hbefore with rfl | ⟨front', rfl⟩
    · exact ⟨front, rfl⟩
    · exact ⟨front ++ '\n' :: front', by simp⟩

end Text

namespace Source

/-- **The search finds the line of every byte of the text**, and that of the place right behind the
last one. -/
theorem lineAt_lines {text : List Char} {offset : Nat} (h : offset ≤ Text.size text)
    (number start : Nat) : ∃ i first line,
      lineAt (start + offset) number start ((Text.lines text).map String.ofList) =
        some (number + i, start + first) ∧
      Text.IsLine text (i + 1) first line ∧ (Text.lines text)[i]? = some line ∧ first ≤ offset := by
  induction text using Text.byLines generalizing offset number start with
  | last line hline =>
      rw [Text.lines_of_not_mem hline, List.map_singleton, lineAt, if_pos]
      · exact ⟨0, 0, line, rfl, Text.isLine_last hline, rfl, Nat.zero_le _⟩
      · exact Nat.add_le_add_left h start
  | more line after hline ih =>
      rw [Text.lines_append hline, List.map_cons, lineAt]
      by_cases hfirst : offset ≤ Text.size line
      · rw [if_pos]
        · exact ⟨0, 0, line, rfl, Text.isLine_first hline after, rfl, Nat.zero_le _⟩
        · exact Nat.add_le_add_left hfirst start
      · rw [Text.size_append, Text.size_newline_cons] at h
        obtain ⟨offset, rfl⟩ := Nat.exists_eq_add_of_le' (Nat.lt_of_not_le hfirst)
        have hinside : offset ≤ Text.size after := by
          omega
        obtain ⟨i, first, found, hlookup, hfound, hentry, hfrom⟩ :=
          ih hinside (number + 1) (start + Text.size line + 1)
        rw [if_neg]
        · refine ⟨i + 1, Text.size line + 1 + first, found, ?_, hfound.later hline, hentry, ?_⟩
          · rw [show start + (offset + (Text.size line + 1)) =
              start + Text.size line + 1 + offset by omega]
            rw [show number + (i + 1) = number + 1 + i by omega]
            rw [show start + (Text.size line + 1 + first) =
              start + Text.size line + 1 + first by omega]
            exact hlookup
          · omega
        · show ¬ start + (offset + (Text.size line + 1)) ≤ start + Text.size line
          omega

/-- A location names the place of a span in a text, and a line is the one it is on: the search for
the span finds that line, the line stands in the text where the search says, and from its beginning
the column leads to the span, which ends within the text. -/
structure Shows (src : Source) (text : String) (span : Span) (location : Location) (line : String) :
    Prop where
  file : location.file = src.file
  number : 1 ≤ location.line ∧ location.line ≤ text.toList.count '\n' + 1
  length : location.length = span.length
  stands : ∃ start, lineAt span.offset 1 0 src.lines = some (location.line, start) ∧
    Text.IsLine text.toList location.line start line.toList ∧
    1 ≤ location.column ∧ start + (location.column - 1) = span.offset ∧
    start + (location.column - 1) + location.length ≤ text.utf8ByteSize

/-- **A span that lies in a text is shown where it is.** -/
theorem shows_locate (file text : String) {span : Span} (h : span.stop ≤ text.utf8ByteSize) :
    (ofText file text).Shows text span ((ofText file text).locate span)
      ((ofText file text).lineText ((ofText file text).locate span).line) := by
  have hoffset : span.offset ≤ Text.size text.toList := by
    rw [Text.size_toList]
    exact Nat.le_trans (Nat.le_add_right _ _) h
  obtain ⟨i, first, line, hlookup, hline, hentry, hfirst⟩ := lineAt_lines hoffset 1 0
  rw [Nat.zero_add, Nat.zero_add, Nat.add_comm 1 i] at hlookup
  have hfound : lineAt span.offset 1 0 (ofText file text).lines = some (i + 1, first) := hlookup
  have hlocate : (ofText file text).locate span =
      ⟨file, i + 1, span.offset - first + 1, span.length⟩ := by
    rw [locate, hfound]
    rfl
  have htext : (ofText file text).lineText (i + 1) = String.ofList line := by
    simp [lineText, ofText, hentry]
  have hlength : i < text.toList.count '\n' + 1 := by
    rw [← Text.length_lines]
    exact (List.getElem?_eq_some_iff.1 hentry).1
  rw [hlocate, htext]
  refine ⟨rfl, ⟨by simp, hlength⟩, rfl, first, hfound, ?_, by simp, ?_, ?_⟩
  · rw [String.toList_ofList]
    exact hline
  · simp
    omega
  · simp only [Nat.add_sub_cancel]
    unfold Span.stop at h
    omega

end Source

end Cmm
