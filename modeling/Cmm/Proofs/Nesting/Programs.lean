import Cmm.Proofs.Complete
import Cmm.Proofs.Env
import Cmm.Proofs.Halting.Productions
import Cmm.Proofs.Handover.Interrupted
import Cmm.Proofs.Nesting.Phrases
import Cmm.Proofs.Scan.Lossless

/-!
# The spans of a program nest

* `Item.Laid` — the checked tree of a body, with its return, stands before a place.
* `Grammar.lays_declaration`, `Grammar.laid_program` — this holds of every body that is read from
  tokens one behind the other; `Cuts.laid_tokens` says that the tokens of a text are such.
* `Analysis.spans_nest` — every tree that is handed over for a text is nested within the text.
-/

set_option autoImplicit false

namespace Cmm

variable {t : Table} {n size fuel : Nat}

/-- The checked tree of the body of a function, with a return behind it, stands before a place. -/
def Item.Laid (t : Table) (result : TypeSpec) (size : Nat) : Item → Prop
  | .body statements closing =>
    Node.Laid 0 size [Node.appendReturn (Stmt.checkBody t result statements).value closing]
  | _ => True

theorem Bodiless.laid {items : List Item} (h : Bodiless items) (result : TypeSpec) :
    ∀ item ∈ items, item.Laid t result size := by
  intro item hitem
  have hnone := h item hitem
  cases item with
  | body => cases hnone
  | external | spec | scalar | array | header | prototype | endPrototypes | beginBody | loose =>
      exact True.intro

/-! ## Declarations -/

namespace Grammar

open Parse
open Cursor (Behind Between)

theorem lays_functionBody (ht : t.Sound) (result : TypeSpec) (hn : n ≤ fuel) (s : Span) :
    Lays n size (Behind s) (functionBody fuel) fun _ items =>
      ∀ item ∈ items, item.Laid t result size := by
  have hlocals {s : Span} : Lays n size (Behind s) (locals fuel fuel) fun _ _ => True :=
    .of_halts (halts_locals hn (Nat.le_refl _) hn (Nat.le_refl _))
  refine Lays.expect.bind fun s₁ _ _ _ => ?_
  refine (hlocals.yields (locals_yields fuel fuel)).bind fun s₂ declared _ hdeclared => .holding ?_
  refine (lays_statements (lays_statement ht result fuel) fuel s₂).bind fun s₃ body _ hbody => ?_
  refine .next fun closing => .closeAt fun hbehind hnonempty hwithin => ?_
  have hstands := Node.laid_appendReturn (hbody.mono (Nat.zero_le _) hbehind) hnonempty
  have hlaid := hstands.mono (Nat.le_refl _) hwithin
  exact List.forall_mem_append.2 ⟨hdeclared.2.laid result, List.forall_mem_singleton.2 hlaid⟩

theorem lays_afterHeader (ht : t.Sound) (result : TypeSpec) (hn : n ≤ fuel) (isExtern : Bool)
    {header : Item} (hheader : header.isBody = false) (s : Span) :
    Lays n size (Behind s) (afterHeader fuel isExtern header) fun _ items =>
      ∀ item ∈ items, item.Laid t result size := by
  have hopening {item : Item} (hitem : item.isBody = false) : Bodiless [header, item] :=
    List.forall_mem_cons.2 ⟨hheader, List.forall_mem_singleton.2 hitem⟩
  have hbegin : Bodiless [header, .beginBody] := hopening rfl
  have hprototype : Bodiless [header, .prototype] := hopening rfl
  refine .kind fun k => ?_
  split
  · refine (lays_functionBody ht result hn s).holding.bind fun s' rest _ hrest => .pure ?_
    exact List.forall_mem_append.2 ⟨hbegin.laid result, hrest⟩
  · have hprototypes : Lays n size (Behind s) (prototypes fuel) fun _ _ => True :=
      .of_halts (halts_prototypes hn (Nat.le_refl _))
    refine (hprototypes.yields (prototypes_yields fuel)).holding.bind
      fun s' rest _ ⟨_, others, hrest, hothers⟩ => .pure ?_
    have hend : Bodiless [.endPrototypes] := List.forall_mem_singleton.2 rfl
    rw [hrest]
    exact (hprototype.append (hothers.append hend)).laid result

theorem lays_declaration (ht : t.Sound) (result : TypeSpec) (hn : n ≤ fuel) (s : Span) :
    Lays n size (Behind s) (declaration fuel) fun _ items =>
      ∀ item ∈ items, item.Laid t result size := by
  have hmore {s : Span} {k : Kind} : Lays n size (Behind s) (accept k) fun _ _ => True :=
    .of_halts Halts.found
  have htype {s : Span} : Lays n size (Behind s) typeWord fun _ _ => True :=
    .of_halts halts_typeWord
  have hparams {s : Span} : Lays n size (Behind s) (parameters fuel) fun _ _ => True :=
    .of_halts (halts_parameters (Nat.le_succ_of_le hn) (Nat.le_refl _))
  have hvariables {name : String} {span s : Span} :
      Lays n size (Behind s) (declarators fuel name span) fun _ _ => True :=
    .of_halts (halts_declarators hn (Nat.le_refl _) name span)
  refine hmore.bind fun s₁ isExtern _ _ => htype.bind fun s₂ spec _ _ => ?_
  refine Lays.name.bind fun s₃ name _ _ => .holding (.kind fun k => ?_)
  have hspec : Bodiless [.spec spec] := List.forall_mem_singleton.2 rfl
  split
  · refine hparams.bind fun s₄ params _ _ => ?_
    refine (lays_afterHeader ht result hn isExtern rfl s₄).bind fun s' rest _ hrest => .pure ?_
    refine List.forall_mem_append.2 ⟨Bodiless.laid (.append ?_ hspec) result, hrest⟩
    cases isExtern with
    | true => exact List.forall_mem_singleton.2 rfl
    | false => exact .nil
  · split
    · exact .fail
    · refine (hvariables.yields (declarators_yields fuel _ _)).bind
        fun s' declared _ ⟨_, hbodiless⟩ => .pure ?_
      exact (hspec.append hbodiless).laid result

/-- The bodies of a program that are complete where reading stops stand before the end. -/
theorem laid_program (ht : t.Sound) (result : TypeSpec) {bound : Nat} (hn : n ≤ bound)
    {c : Cursor} (hc : c.Ordered n size) :
    ∀ item ∈ complete (program bound fuel) c, item.Laid t result size := by
  induction fuel generalizing c with
  | zero => exact Bodiless.nil.laid result
  | succ fuel ih =>
      by_cases hend : c.next.kind = .endOfFile
      · have hnone : Reads (program bound (fuel + 1)) c [] c := by
          refine .kind hend ?_
          rw [if_pos rfl]
          exact .pure []
        rw [complete_of_reads hnone]
        exact Bodiless.nil.laid result
      · rw [complete_program hend]
        cases hrun : declaration bound c with
        | error i =>
            rw [complete_bind_of_interrupted hrun]
            exact (spares_declaration bound c i hrun).laid result
        | ok r =>
            obtain ⟨hc', -, hitems⟩ := lays_declaration ht result hn c.last c r.1 r.2 hc rfl hrun
            rw [complete_bind_of_reads hrun, complete_holding]
            exact List.forall_mem_append.2 ⟨hitems, ih hc'⟩

end Grammar

/-! ## Texts -/

/-- The tokens of a text stand one behind the other. -/
theorem Cuts.laid_tokens {offset : Nat} {text : List Char} {places : List (Nat × Segment)}
    (h : Cuts offset text places) :
    Span.Laid offset (offset + (String.ofList text).utf8ByteSize)
      ((places.filterMap Segment.token?).map (·.span)) := by
  induction h with
  | nil => exact Nat.le_add_right _ _
  | @cons offset s after places fits rest ih =>
      rw [Segment.size_append, ← Nat.add_assoc]
      cases htoken : Segment.token? (offset, s) with
      | none =>
          rw [List.filterMap_cons_none htoken]
          exact ih.mono (Nat.le_add_right _ _) (Nat.le_refl _)
      | some token =>
          obtain ⟨kind, -, rfl⟩ := Segment.of_token? htoken
          rw [List.filterMap_cons_some htoken]
          exact ⟨Nat.le_refl _, Nat.lt_add_of_pos_right fits.size_pos, ih⟩

/-- Reading begins in front of the tokens of a text, all of them in order. -/
theorem Cursor.ordered_scan (text : String) : (start (scan text).tokens).Ordered
    (scan text).tokens.length text.utf8ByteSize := by
  obtain ⟨places, hcuts, hscan⟩ := cuts_scan text
  have hlaid := hcuts.laid_tokens
  rw [Nat.zero_add, String.ofList_toList] at hlaid
  have hmore : ∀ token ∈ places.filterMap Segment.token?, (!isEnd token) = true := by
    intro token htoken
    simpa [isEnd] using (hcuts.isLongest htoken).2.1
  have hrest : (start (scan text).tokens).rest = places.filterMap Segment.token? := by
    show (scan text).tokens.takeWhile (!isEnd ·) = _
    rw [hscan, List.takeWhile_append_of_pos hmore]
    simp [isEnd, Token.endAt]
  refine ⟨kind_stop_start _, ?_, ?_⟩
  · rw [rest_start]
    exact (List.takeWhile_sublist _).length_le
  · rw [hrest]
    exact hlaid

namespace Analysis

/-- **The spans of every tree nest.** In each tree that is handed over for a text, with or without
reports, every node lies within the text, contains its children, and has them one behind the other.
This takes in whatever covers other tokens than its children do: a tree in parentheses, a tree that
stands for an error, the cells of a list and the return that is added at the closing brace. -/
theorem spans_nest (text : String) :
    ∀ d ∈ (ofTokens (scan text).tokens).definitions,
      d.body.Throughout fun n => n.span.stop ≤ text.utf8ByteSize ∧ n.Nested := by
  intro d hd
  rw [definitions_ofTokens] at hd
  obtain ⟨before, next, rest, handed⟩ := Env.mem_definitions_iff.1 hd
  obtain ⟨body, closing, hitems, -, htable, hbody, -⟩ := handed.body
  have hsound : d.table.Sound := by
    rw [htable]
    exact Env.sound_after before
  have hmem : Item.body body closing ∈ (Reading.ofTokens (scan text).tokens).items := by
    rw [hitems]
    exact List.mem_append_right _ List.mem_cons_self
  rw [Reading.items_ofTokens] at hmem
  have hlaid := Grammar.laid_program hsound (Env.empty.after before).frame.result (Nat.le_refl _)
    (Cursor.ordered_scan text) _ hmem
  obtain ⟨hnested, -, hstop⟩ := Node.laid_singleton.1 hlaid
  rw [hbody]
  exact fun m hm => ⟨Nat.le_trans (hnested.stop_le m hm) hstop, hnested m hm⟩

/-- An operand in parentheses, an undeclared one that makes its operation an error, and a return
that is added. -/
theorem spans_nest_reported :
    let text := "int a; void f(void) \x7b a = (a + 1) * a; a = -(a * b); \x7d"
    let analysis := ofTokens (scan text).tokens
    analysis.reports.length = 1 ∧ ∃ d ∈ analysis.definitions,
      d.body.Throughout fun n => n.span.stop ≤ text.utf8ByteSize ∧ n.Nested := by
  intro text analysis
  have hpos : 0 < analysis.definitions.length := by decide +kernel
  obtain ⟨d, hd⟩ := List.exists_mem_of_length_pos hpos
  exact ⟨by decide +kernel, d, hd, spans_nest text d hd⟩

end Analysis

end Cmm
