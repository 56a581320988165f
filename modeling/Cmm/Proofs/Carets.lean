import Cmm.Diagnostic
import Cmm.Proofs.Locations
import Cmm.Proofs.Places

/-!
# Carets

Under the source line of a diagnostic stand its carets. A location counts bytes, and the row of the
carets has a character for each of them, so that the carets stand under what is reported only where
every character up to its end is a single byte.

* `Row.Marks` — the places of the carets in a row.
* `Diagnostic.render_placed` — the two rows of an excerpt as they are printed.
* `Source.locate_on_line` — the location of a place by the line that it is on.
* `Diagnostic.carets_count_bytes` — where the carets stand, and when this is under what is reported.
* `Diagnostic.carets_beside_reported` — two diagnostics where it is not.
-/

set_option autoImplicit false

namespace Cmm

/-! ## Characters and bytes -/

namespace Text

theorem length_le_size (text : List Char) : text.length ≤ size text := by
  induction text with
  | nil => exact Nat.zero_le _
  | cons c rest ih =>
      have hpos := c.utf8Size_pos
      rw [size_cons, List.length_cons]
      omega

/-- A text has as many bytes as characters where each of them is a single byte. -/
theorem size_eq_length_iff {text : List Char} :
    size text = text.length ↔ ∀ c ∈ text, c.utf8Size = 1 := by
  induction text with
  | nil => simp
  | cons c rest ih =>
      have hpos := c.utf8Size_pos
      have hrest := length_le_size rest
      rw [size_cons, List.length_cons, List.forall_mem_cons, ← ih]
      omega

end Text

namespace Source

/-- A place on a line of a text is located on this line, and the line is shown. -/
theorem locate_on_line (file : String) {text : String} {line : List Char} {number first k : Nat}
    (h : Text.IsLine text.toList number first line) (hk : k ≤ Text.size line) (length : Nat) :
    (ofText file text).locate ⟨first + k, length⟩ = ⟨file, number, k + 1, length⟩ ∧
      (ofText file text).lineText number = String.ofList line := by
  have inside : first + k ≤ text.utf8ByteSize := by
    obtain ⟨-, before, after, htext, -, rfl, -⟩ := h
    rw [← Text.size_toList, htext, Text.size_append, Text.size_append]
    omega
  obtain ⟨i, first', line', hlocate, hshown, hline, hfrom, hreach⟩ :=
    @exists_locate file text ⟨first + k, length⟩ inside
  obtain ⟨rfl, rfl, rfl⟩ := h.unique hline (Nat.le_add_right first k) (by omega) hfrom hreach
  rw [hlocate, Nat.add_sub_cancel_left]
  exact ⟨rfl, hshown⟩

end Source

/-! ## Rows -/

namespace Row

/-- The carets of a row are `count` characters from `start` on. -/
def Marks (row : List Char) (start count : Nat) : Prop :=
  ∀ i, row[i]? = some '^' ↔ start ≤ i ∧ i < start + count

theorem marks_append {front : List Char} (h : '^' ∉ front) (count : Nat) :
    Marks (front ++ List.replicate count '^') front.length count := by
  intro i
  rw [List.getElem?_append]
  split
  · rename_i hi
    have hne : front[i]? ≠ some '^' := fun hsome => h (List.mem_of_getElem? hsome)
    simp only [hne, false_iff]
    omega
  · rw [List.getElem?_replicate]
    split <;> simp <;> omega

/-- The carets of a row stand in one place. -/
theorem Marks.unique {row : List Char} {start start' count count' : Nat}
    (h : Marks row start count) (h' : Marks row start' count') (hpos : 0 < count)
    (hpos' : 0 < count') : start = start' ∧ count = count' := by
  have hsame : ∀ i, start ≤ i ∧ i < start + count ↔ start' ≤ i ∧ i < start' + count' :=
    fun i => (h i).symm.trans (h' i)
  have hfirst := hsame start
  have hfirst' := hsame start'
  have hlast := hsame (start + count - 1)
  have hlast' := hsame (start' + count' - 1)
  omega

end Row

namespace Diagnostic

/-- What stands in front of a source line: its number and a bar. -/
def gutter (number : Nat) : List Char := (toString number).toList ++ [' ', '|', ' ']

/-- What stands in front of the carets: the same with blanks for the number. -/
def blankGutter (number : Nat) : List Char :=
  List.replicate (toString number).length ' ' ++ [' ', '|', ' ']

/-- The row under a source line. -/
def caretRow (location : Location) : List Char :=
  blankGutter location.line ++ List.replicate (location.column - 1) ' ' ++
    List.replicate (max location.length 1) '^'

theorem length_blankGutter (number : Nat) :
    (blankGutter number).length = (gutter number).length := by
  rw [blankGutter, gutter, List.length_append, List.length_append, List.length_replicate,
    String.length_toList]

/-- A number is written in digits. -/
theorem notMem_toDigits {c : Char} (hc : c.isDigit = false) (number : Nat) :
    c ∉ Nat.toDigits 10 number := by
  intro h
  rw [Nat.isDigit_of_mem_toDigits (by decide) (by decide) h] at hc
  cases hc

theorem newline_notMem_gutter (number : Nat) : '\n' ∉ gutter number := by
  rw [gutter, List.mem_append, not_or, Nat.toString_eq_repr, Nat.toList_repr]
  exact ⟨notMem_toDigits (by decide) number, by decide⟩

theorem newline_notMem_caretRow (location : Location) : '\n' ∉ caretRow location := by
  simp [caretRow, blankGutter]

theorem marks_caretRow (location : Location) : Row.Marks (caretRow location)
    ((gutter location.line).length + (location.column - 1)) (max location.length 1) := by
  have hfront : '^' ∉ blankGutter location.line ++ List.replicate (location.column - 1) ' ' := by
    simp [blankGutter]
  have hmarks := Row.marks_append hfront (max location.length 1)
  rwa [List.length_append, List.length_replicate, length_blankGutter] at hmarks

/-- Without colour, a diagnostic is printed as the texts of its runs. -/
theorem toList_render (d : Diagnostic) :
    (d.render false).toList = d.runs.flatMap (·.text.toList) := by
  have hshown : Run.shown false = Run.text := by
    funext r
    unfold Run.shown
    split <;> rfl
  rw [render, Run.render, hshown, String.toList_join, List.flatMap_map]

/-- An excerpt is a source line and the row of the carets under it. -/
theorem toList_excerpt (location : Location) (line : String) :
    (excerpt (times (toString location.line).length ' ') location line).flatMap (·.text.toList) =
      gutter location.line ++ line.toList ++ '\n' :: (caretRow location ++ ['\n']) := by
  simp [excerpt, Run.plain, Run.styled, times, gutter, caretRow, blankGutter]

/-- The runs of a diagnostic at a place hold its excerpt, behind a newline. -/
theorem runs_placed (d : Diagnostic) (src : Source) (span : Span) : ∃ above below : List Run,
    let location := src.locate span
    (d.placed src span).runs = above ++ [.plain "\n"] ++
      excerpt (times (toString location.line).length ' ') location
        (src.lineText location.line) ++ below := by
  let padding := times (toString (src.locate span).line).length ' '
  let above : List Run := [.styled .boldRed "error", .plain "[", .styled .cyan d.code,
    .plain ("]: " ++ d.message ++ "\n"), .plain (padding ++ "--> "),
    .styled .blue (src.locate span).text, .plain "\n", .plain (padding ++ " "), .styled .blue "|"]
  let below : List Run := [.plain (padding ++ " "), .styled .blue "|", .plain "\n"] ++
    d.hint?.elim [] (remark .boldGreen "help") ++ d.notes.flatMap (remark .boldCyan "note")
  refine ⟨above, below, ?_⟩
  cases hhint : d.hint? <;> simp [above, below, padding, runs, placed, placeRuns, hhint]

/-- A diagnostic is printed with its excerpt on rows of their own. -/
theorem render_placed (d : Diagnostic) (src : Source) (span : Span) : ∃ above below : List Char,
    let location := src.locate span
    ((d.placed src span).render false).toList =
      above ++ '\n' :: (gutter location.line ++ (src.lineText location.line).toList) ++
        '\n' :: (caretRow location ++ '\n' :: below) := by
  obtain ⟨above, below, hruns⟩ := runs_placed d src span
  refine ⟨above.flatMap (·.text.toList), below.flatMap (·.text.toList), ?_⟩
  rw [toList_render, hruns, List.flatMap_append, List.flatMap_append, List.flatMap_append,
    toList_excerpt]
  simp [Run.plain]

/-- **Carets count bytes.** A diagnostic at a stretch of a line is printed, without colour, with the
line behind its gutter on a row, and the carets on the row below. The carets begin as many
characters behind the gutter as there are bytes in front of the stretch, and are as many as its
bytes, at least one. So they stand under the characters of the stretch, or as a single caret at its
place where it is empty, if and only if all characters of the line up to its end are single
bytes. -/
theorem carets_count_bytes (file text : String) (d : Diagnostic) {number first : Nat}
    {head covered tail : List Char}
    (h : Text.IsLine text.toList number first (head ++ covered ++ tail)) :
    let span : Span := ⟨first + Text.size head, Text.size covered⟩
    let start := (gutter number).length
    ∃ above carets below : List Char,
      ((d.placed (.ofText file text) span).render false).toList =
        above ++ '\n' :: (gutter number ++ (head ++ covered ++ tail)) ++
          '\n' :: (carets ++ '\n' :: below) ∧
      '\n' ∉ gutter number ++ (head ++ covered ++ tail) ∧ '\n' ∉ carets ∧
      Row.Marks carets (start + Text.size head) (max (Text.size covered) 1) ∧
      (Row.Marks carets (start + head.length) (max covered.length 1) ↔
        ∀ c ∈ head ++ covered, c.utf8Size = 1) := by
  intro span start
  have hinside : Text.size head ≤ Text.size (head ++ covered ++ tail) := by
    rw [Text.size_append, Text.size_append]
    omega
  obtain ⟨hlocate, hshown⟩ := Source.locate_on_line file h hinside (Text.size covered)
  obtain ⟨above, below, hrows⟩ := render_placed d (.ofText file text) span
  let location : Location := ⟨file, number, Text.size head + 1, Text.size covered⟩
  have hmarks : Row.Marks (caretRow location) (start + Text.size head)
      (max (Text.size covered) 1) := marks_caretRow location
  simp only [span, hlocate, hshown, String.toList_ofList] at hrows
  refine ⟨above, _, below, hrows, ?_, newline_notMem_caretRow _, hmarks, ?_⟩
  · rw [List.mem_append, not_or]
    exact ⟨newline_notMem_gutter number, h.unbroken⟩
  · have hhead := Text.length_le_size head
    have hcovered := Text.length_le_size covered
    constructor
    · intro hunder
      obtain ⟨hstart, hcount⟩ := hmarks.unique hunder (by omega) (by omega)
      rw [← Text.size_eq_length_iff, Text.size_append, List.length_append]
      cases covered with
      | nil => exact Nat.add_left_cancel hstart
      | cons c rest =>
          rw [List.length_cons] at hcovered hcount ⊢
          omega
    · intro hsingle
      rw [List.forall_mem_append, ← Text.size_eq_length_iff, ← Text.size_eq_length_iff] at hsingle
      rw [← hsingle.1, ← hsingle.2]
      exact hmarks

/-- Of `@` on the second line of a text, the caret stands under it. -/
theorem carets_count_bytes_second_line :
    let text := "int a;\n  @;"
    Text.IsLine text.toList 2 7 (("  ".toList ++ "@".toList) ++ ";".toList) ∧
    ∃ above carets below : List Char,
      ((Report.diagnostic ⟨.lexical (.unexpected '@'), ⟨9, 1⟩⟩ (.ofText "t.c" text)).render
          false).toList =
        above ++ '\n' :: "2 |   @;".toList ++ '\n' :: (carets ++ '\n' :: below) ∧
      Row.Marks carets 6 1 := by
  intro text
  have hline : Text.IsLine text.toList 2 7 (("  ".toList ++ "@".toList) ++ ";".toList) :=
    ⟨by decide, "int a;\n".toList, [], by decide, by decide, by decide,
      .inr ⟨"int a;".toList, by decide⟩, .inl rfl⟩
  obtain ⟨above, carets, below, hrows, -, -, hmarks, -⟩ := carets_count_bytes "t.c" text
    (Fault.diagnostic (.lexical (.unexpected '@')) (.ofText "t.c" text)) hline
  exact ⟨hline, above, carets, below, hrows, hmarks⟩

/-- In `int é, é;` the second name is reported, at its place on the only line. Its row shows it
behind eleven characters, and the carets stand behind twelve and are two. -/
theorem carets_beside_reported :
    let text := "int é, é;"
    let r : Report Fault := ⟨.semantic (.redeclared "é" ⟨4, 2⟩), ⟨8, 2⟩⟩
    r ∈ reportsOn text ∧
    Text.IsLine text.toList 1 0 ("int é, ".toList ++ "é".toList ++ ";".toList) ∧
    r.span = ⟨Text.size "int é, ".toList, Text.size "é".toList⟩ ∧
    (r.diagnostic (.ofText "test.c" text)).render false =
      "error[E200]: multiple declarations of é\n" ++ " --> test.c:1:9\n" ++ "  |\n" ++
        "1 | int é, é;\n" ++ "  |         ^^\n" ++ "  |\n" ++
        "   = note: previous declaration at test.c:1:5\n" ∧
    ¬ Row.Marks "  |         ^^".toList ("1 | int é, ".toList.length) ("é".toList.length) := by
  refine ⟨by decide +kernel, ?_, by decide, by decide +kernel, ?_⟩
  · exact ⟨by decide, [], [], by decide, by decide, by decide, .inl rfl, .inl rfl⟩
  · intro hmarks
    exact absurd ((hmarks 11).2 (by decide)) (by decide)

end Diagnostic

end Cmm
