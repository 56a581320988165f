import Cmm.Proofs.Carets

/-!
# Colours

With colour, styled runs stand between sequences that a terminal takes out of what it shows. Where
no text of a diagnostic holds the escape character, these sequences are all there is to take out.

* `Terminal.IsSequence` — what a colour sequence is; `Terminal.parts` — a text cut into its sequences
  and the characters between them.
* `Terminal.strip`, `Terminal.sequences` — what is shown of a text, and what is not.
* `Run.parts_render` — what runs with colour are cut into: styles and resets where they were put,
  and every character of their texts.
* `Diagnostic.colour_adds_sequences` — without its sequences a diagnostic in colour is the one
  without colour, and the sequences switch styles on and off by turns.
-/

set_option autoImplicit false

namespace Cmm

namespace Terminal

variable {text found behind : List Char}

/-- A character that the parameters of a sequence are made of. -/
def isParameter (c : Char) : Bool := c.isDigit || c == ';'

/-- A colour sequence: the escape character, a bracket, digits and semicolons, and an `m`. -/
inductive IsSequence : List Char → Prop
  | mk {parameters : List Char} (all : ∀ c ∈ parameters, isParameter c) :
      IsSequence ('\x1b' :: '[' :: (parameters ++ ['m']))

/-- The colour sequence that a text begins with, and the text behind it. -/
def sequence? : List Char → Option (List Char × List Char)
  | '\x1b' :: '[' :: rest =>
    match rest.dropWhile isParameter with
    | 'm' :: behind => some ('\x1b' :: '[' :: (rest.takeWhile isParameter ++ ['m']), behind)
    | _ => none
  | _ => none

theorem sequence?_eq_some_iff :
    sequence? text = some (found, behind) ↔ IsSequence found ∧ text = found ++ behind := by
  constructor
  · intro h
    unfold sequence? at h
    split at h
    · rename_i rest
      split at h
      · rename_i behind' hdrop
        cases h
        refine ⟨.mk fun c hc => List.all_eq_true.1 List.all_takeWhile c hc, ?_⟩
        have hrest := List.takeWhile_append_dropWhile (p := isParameter) (l := rest)
        rw [hdrop] at hrest
        simp [hrest]
      · cases h
    · cases h
  · rintro ⟨⟨all⟩, rfl⟩
    have hend : isParameter 'm' = false := by decide
    simp [sequence?, List.dropWhile_append_of_pos all, List.takeWhile_append_of_pos all, hend]

theorem IsSequence.ne_nil (h : IsSequence found) : found ≠ [] := by
  cases h
  exact List.cons_ne_nil _ _

/-- What a terminal takes a text apart into. -/
inductive Part where
  | shown (c : Char)
  | sequence (text : List Char)

/-- A text cut into its sequences and the characters between them. -/
def parts : List Char → List Part
  | [] => []
  | c :: rest =>
    match _h : sequence? (c :: rest) with
    | some (found, behind) => .sequence found :: parts behind
    | none => .shown c :: parts rest
termination_by text => text.length
decreasing_by
  · obtain ⟨hfound, heq⟩ := sequence?_eq_some_iff.1 _h
    rw [heq, List.length_append]
    have := List.length_pos_iff.2 hfound.ne_nil
    omega
  · exact Nat.lt_succ_self _

theorem parts_of_sequence? (h : sequence? text = some (found, behind)) :
    parts text = .sequence found :: parts behind := by
  cases text with
  | nil => cases h
  | cons c rest =>
      rw [parts]
      split
      · rename_i heq
        rw [h] at heq
        cases heq
        rfl
      · rename_i heq
        rw [h] at heq
        cases heq

theorem parts_sequence (h : IsSequence found) (behind : List Char) :
    parts (found ++ behind) = .sequence found :: parts behind :=
  parts_of_sequence? (sequence?_eq_some_iff.2 ⟨h, rfl⟩)

/-- Only the escape character begins a sequence. -/
theorem parts_cons_of_ne {c : Char} (hc : c ≠ '\x1b') (rest : List Char) :
    parts (c :: rest) = .shown c :: parts rest := by
  have hnone : sequence? (c :: rest) = none := by
    unfold sequence?
    split
    · rename_i heq
      exact absurd (List.cons.inj heq).1 hc
    · rfl
  rw [parts]
  split
  · rename_i heq
    rw [hnone] at heq
    cases heq
  · rfl

/-- A text without the escape character is shown as it is. -/
theorem parts_append (h : '\x1b' ∉ text) (behind : List Char) :
    parts (text ++ behind) = text.map .shown ++ parts behind := by
  induction text with
  | nil => rfl
  | cons c text ih =>
      rw [List.mem_cons, not_or] at h
      rw [List.cons_append, parts_cons_of_ne (Ne.symm h.1), ih h.2]
      rfl

/-- The character of a part that is shown. -/
def Part.shown? : Part → Option Char
  | .shown c => some c
  | .sequence _ => none

/-- The sequence that a part is. -/
def Part.sequence? : Part → Option String
  | .shown _ => none
  | .sequence text => some (String.ofList text)

theorem filterMap_shown? (text : List Char) :
    (text.map Part.shown).filterMap Part.shown? = text := by
  rw [List.filterMap_map]
  exact List.filterMap_some

/-- A text as a terminal shows it: without its sequences. -/
def strip (text : String) : String := String.ofList ((parts text.toList).filterMap Part.shown?)

/-- The sequences of a text, first to last. -/
def sequences (text : String) : List String := (parts text.toList).filterMap Part.sequence?

/-- A sequence that switches a style on. -/
def IsOpening (sequence : String) : Prop :=
  sequence ≠ Style.reset ∧ ∃ style : Style, sequence = style.opening

/-- Openings and resets take turns, from an opening to a reset. -/
inductive TakeTurns : List String → Prop
  | nil : TakeTurns []
  | cons {opening : String} {rest : List String} (opens : IsOpening opening)
      (behind : TakeTurns rest) : TakeTurns (opening :: Style.reset :: rest)

end Terminal

namespace Style

theorem isSequence_opening (s : Style) : Terminal.IsSequence s.opening.toList := by
  have all : ∀ c ∈ s.parameters.toList, Terminal.isParameter c := by
    cases s <;> simp [parameters, Terminal.isParameter]
  simpa [opening] using Terminal.IsSequence.mk all

theorem isSequence_reset : Terminal.IsSequence reset.toList :=
  @Terminal.IsSequence.mk ['0'] (by simp [Terminal.isParameter])

theorem isOpening_opening (s : Style) : Terminal.IsOpening s.opening :=
  ⟨by cases s <;> decide, s, rfl⟩

/-- Nothing has to be switched on again in a text without the escape character. -/
theorem resume_eq_self (s : Style) {text : List Char} (h : '\x1b' ∉ text) :
    s.resume text = text := by
  induction text with
  | nil => rfl
  | cons c text ih =>
      rw [List.mem_cons, not_or] at h
      rw [resume, ih h.2]
      intro rest hc
      exact absurd hc.symm h.1

end Style

namespace Run

open Terminal

/-- The parts of a run with colour. -/
def parts (r : Run) : List Part :=
  match r.style with
  | some s =>
    .sequence s.opening.toList :: (r.text.toList.map .shown ++ [.sequence Style.reset.toList])
  | none => r.text.toList.map .shown

/-- The texts of some runs are without the escape character. -/
def Unescaped (runs : List Run) : Prop := ∀ r ∈ runs, '\x1b' ∉ r.text.toList

theorem Unescaped.nil : Unescaped [] := List.forall_mem_nil _

theorem Unescaped.append {runs more : List Run} (h : Unescaped runs) (hmore : Unescaped more) :
    Unescaped (runs ++ more) := List.forall_mem_append.2 ⟨h, hmore⟩

theorem parts_shown {r : Run} (h : '\x1b' ∉ r.text.toList) (behind : List Char) :
    Terminal.parts ((r.shown true).toList ++ behind) = r.parts ++ Terminal.parts behind := by
  unfold shown parts
  cases r.style with
  | none => exact parts_append h behind
  | some s =>
      -- The opening ends at its `m`, so that nothing of the text is taken for a part of it.
      simp only [if_true, Style.paint, s.resume_eq_self h, String.ofList_toList,
        String.toList_append, List.append_assoc]
      rw [parts_sequence s.isSequence_opening, parts_append h,
        parts_sequence Style.isSequence_reset]
      simp

theorem parts_render {runs : List Run} (h : Unescaped runs) :
    Terminal.parts (render true runs).toList = runs.flatMap parts := by
  rw [render, String.toList_join, List.flatMap_map]
  induction runs with
  | nil => simp [Terminal.parts]
  | cons r rest ih =>
      obtain ⟨hr, hrest⟩ := List.forall_mem_cons.1 h
      rw [List.flatMap_cons, parts_shown hr, ih hrest, List.flatMap_cons]

variable {runs : List Run}

/-- The sequences of a run with colour. -/
def turns (r : Run) : List String :=
  match r.style with
  | some s => [s.opening, Style.reset]
  | none => []

theorem strip_render (h : Unescaped runs) :
    strip (render true runs) = render false runs := by
  have hparts : ∀ r : Run, r.parts.filterMap Part.shown? = (r.shown false).toList := by
    intro r
    unfold parts shown
    cases r.style with
    | none => exact filterMap_shown? _
    | some s =>
        rw [List.filterMap_cons_none rfl, List.filterMap_append, filterMap_shown?]
        exact List.append_nil _
  rw [strip, parts_render h, List.filterMap_flatMap]
  simp only [hparts]
  rw [← String.toList_inj, String.toList_ofList, render, String.toList_join, List.flatMap_map]

theorem sequences_render (h : Unescaped runs) :
    sequences (render true runs) = runs.flatMap turns := by
  have hparts : ∀ r : Run, r.parts.filterMap Part.sequence? = r.turns := by
    intro r
    unfold parts turns
    cases r.style <;> simp [Part.sequence?, Function.comp_def]
  rw [sequences, parts_render h, List.filterMap_flatMap]
  simp only [hparts]

theorem takeTurns_flatMap_turns (runs : List Run) : TakeTurns (runs.flatMap turns) := by
  induction runs with
  | nil => exact .nil
  | cons r rest ih =>
      rw [List.flatMap_cons, turns]
      cases r.style with
      | none => exact ih
      | some s => exact .cons s.isOpening_opening ih

end Run

namespace Diagnostic

/-- The texts that a diagnostic is given. -/
def texts (d : Diagnostic) : List String :=
  d.code :: d.message :: d.hint?.toList ++ d.notes ++ (d.location?.map (·.file)).toList ++
    d.line?.toList

theorem escape_notMem_digits (number : Nat) : '\x1b' ∉ Nat.toDigits 10 number :=
  notMem_toDigits (by decide) number

theorem escape_notMem_location {l : Location} (h : '\x1b' ∉ l.file.toList) :
    '\x1b' ∉ l.text.toList := by
  have hfile : '\x1b' ∉ (toString l.file).toList := h
  have hcolon : '\x1b' ∉ (toString ":").toList := by decide
  simp [Location.text, escape_notMem_digits, hfile, hcolon]

theorem unescaped_remark (style : Style) {title text : String} (htitle : '\x1b' ∉ title.toList)
    (htext : '\x1b' ∉ text.toList) : Run.Unescaped (remark style title text) := by
  simp [Run.Unescaped, remark, Run.plain, Run.styled, htitle, htext]

theorem unescaped_excerpt (padding : Nat) (location : Location) {line : String}
    (h : '\x1b' ∉ line.toList) : Run.Unescaped (excerpt (times padding ' ') location line) := by
  simp [Run.Unescaped, excerpt, Run.plain, Run.styled, times, h, escape_notMem_digits]

theorem unescaped_placeRuns {location : Location} {line? : Option String}
    (hfile : '\x1b' ∉ location.file.toList) (hline : ∀ line ∈ line?, '\x1b' ∉ line.toList) :
    Run.Unescaped (placeRuns location line?) := by
  have hplace := escape_notMem_location hfile
  cases line? with
  | none => simp [Run.Unescaped, placeRuns, Run.plain, Run.styled, times, hplace]
  | some line =>
      have hexcerpt := unescaped_excerpt (toString location.line).length location (hline line rfl)
      refine .append (.append ?_ hexcerpt) ?_
      · simp [Run.Unescaped, Run.plain, Run.styled, times, hplace]
      · simp [Run.Unescaped, Run.plain, Run.styled, times]

/-- A diagnostic given texts without the escape character has none in its runs. -/
theorem unescaped_runs {d : Diagnostic} (h : ∀ text ∈ d.texts, '\x1b' ∉ text.toList) :
    Run.Unescaped d.runs := by
  simp only [texts, List.forall_mem_append, List.forall_mem_cons, Option.mem_toList] at h
  obtain ⟨⟨⟨⟨hcode, hmessage, hhint⟩, hnotes⟩, hfile⟩, hline⟩ := h
  refine .append (.append (.append ?_ ?_) ?_) ?_
  · simp [Run.Unescaped, Run.plain, Run.styled, hcode, hmessage]
  · cases hlocation : d.location? with
    | none => exact .nil
    | some location =>
        rw [hlocation] at hfile
        exact unescaped_placeRuns (hfile _ rfl) hline
  · cases hhint' : d.hint? with
    | none => exact .nil
    | some hint => exact unescaped_remark _ (by decide) (hhint hint hhint')
  · intro r hr
    obtain ⟨note, hnote, hr⟩ := List.mem_flatMap.1 hr
    exact unescaped_remark _ (by decide) (hnotes note hnote) r hr

/-- **Colour adds nothing but sequences.** Of a diagnostic whose texts are without the escape
character, the rendering in colour is the one without colour once its sequences are taken out. There
are sequences in it, and they are openings of styles and resets by turns, from an opening to a
reset. -/
theorem colour_adds_sequences (d : Diagnostic) (h : ∀ text ∈ d.texts, '\x1b' ∉ text.toList) :
    Terminal.strip (d.render true) = d.render false ∧
      Terminal.sequences (d.render true) ≠ [] ∧
      Terminal.TakeTurns (Terminal.sequences (d.render true)) := by
  have hruns := unescaped_runs h
  have hsequences : Terminal.sequences (d.render true) = d.runs.flatMap Run.turns :=
    Run.sequences_render hruns
  rw [hsequences]
  exact ⟨Run.strip_render hruns, List.cons_ne_nil _ _, Run.takeTurns_flatMap_turns d.runs⟩

/-- A diagnostic whose texts look like the ends of sequences. -/
theorem colour_adds_sequences_brackets :
    let d : Diagnostic := ⟨"[1m", "[31m", some "0m", ["m", ";[0m"], some ⟨"m.c", 12, 3, 2⟩,
      some "x[0m;"⟩
    (∀ text ∈ d.texts, '\x1b' ∉ text.toList) ∧
      Terminal.strip (d.render true) = "error[[1m]: [31m\n" ++ "  --> m.c:12:3\n" ++ "   |\n" ++
        "12 | x[0m;\n" ++ "   |   ^^\n" ++ "   |\n" ++ "   = help: 0m\n" ++ "   = note: m\n" ++
        "   = note: ;[0m\n" ∧
      Terminal.TakeTurns (Terminal.sequences (d.render true)) := by
  intro d
  have h : ∀ text ∈ d.texts, '\x1b' ∉ text.toList := by decide
  obtain ⟨hstrip, -, hturns⟩ := colour_adds_sequences d h
  refine ⟨h, hstrip.trans ?_, hturns⟩
  decide +kernel

end Diagnostic

end Cmm
