import Cmm.Diagnostic
import Cmm.Proofs.Complete
import Cmm.Proofs.Env
import Cmm.Proofs.Prefix.Productions
import Cmm.Proofs.Sentence.Exact

/-!
# Programs with more tokens behind

What is concluded about a complete program stands, whatever follows it.

* `Cursor.start_append` — the beginning of a program is that of the tokens it is a prefix of.
* `Grammar.program_begins` — the items of a complete program are the first items of the longer one,
  also where that is interrupted.
* `Analysis.prefix_stable` — so its diagnostics and its functions come first, unchanged.
-/

set_option autoImplicit false

namespace Cmm

namespace Cursor

/-- Tokens without an end mark are read first, whatever follows them. -/
theorem start_append {tokens : List Token} (open_end : ∀ t ∈ tokens, t.kind ≠ .endOfFile)
    (others : List Token) : start (tokens ++ others) =
      (start tokens).extend (others.takeWhile (!isEnd ·)) (start (tokens ++ others)).stop := by
  have hmore : ∀ t ∈ tokens, (!isEnd t) = true := fun t ht => by
    simpa [isEnd] using open_end t ht
  have hrest : (tokens ++ []).takeWhile (!isEnd ·) = tokens ++ [].takeWhile (!isEnd ·) :=
    List.takeWhile_append_of_pos hmore
  rw [List.append_nil, List.takeWhile_nil, List.append_nil] at hrest
  unfold start extend
  simp only [List.takeWhile_append_of_pos hmore, hrest]

end Cursor

namespace Grammar

open Parse

variable {c c' : Cursor} {more : List Token} {stop : Token}

/-- **A complete program comes first in any longer one.** -/
theorem program_begins {bound bound' fuel fuel' : Nat} {items : List Item}
    (hstop : c.stop.kind = .endOfFile) (hbound : c.rest.length ≤ bound) (hbounds : bound ≤ bound')
    (hfuel : fuel ≤ fuel') (hr : Reads (program bound fuel) c items c') (more : List Token)
    (stop : Token) : items <+: complete (program bound' fuel') (c.extend more stop) := by
  induction fuel generalizing c items fuel' with
  | zero =>
      obtain ⟨rfl, -⟩ := reads_pure.1 hr
      exact List.nil_prefix
  | succ fuel ih =>
      obtain ⟨fuel', rfl⟩ : ∃ k, fuel' = k + 1 := ⟨fuel' - 1, by omega⟩
      obtain ⟨k, here, hk, hr⟩ := reads_bind.1 hr
      obtain ⟨rfl, rfl⟩ := reads_kind.1 hk
      split at hr
      · obtain ⟨rfl, -⟩ := reads_pure.1 hr
        exact List.nil_prefix
      · rename_i hmore
        obtain ⟨first, c₁, hfirst, hr⟩ := reads_bind.1 hr
        obtain ⟨rest, c₂, hrest, hr⟩ := reads_bind.1 hr
        obtain ⟨rfl, rfl⟩ := reads_pure.1 hr
        -- The first declaration is read again, and what follows it is the longer rest.
        have hdeclaration := closes_declaration hbound hbounds
        obtain ⟨hless, hend, hagain⟩ := hdeclaration here first c₁ hstop (Nat.le_refl _) hfirst
        have hlater : rest <+: complete (program bound' fuel') (c₁.extend more stop) :=
          ih (by rw [hend, hstop]) (by omega) (by omega) (reads_holding.1 hrest)
        have hnext : (here.extend more stop).next = here.next :=
          Cursor.next_extend (Nat.zero_lt_of_lt hless)
        rw [complete_program (by rw [hnext]; exact hmore), complete_bind_of_reads (hagain more stop),
          complete_holding]
        exact (List.prefix_append_right_inj first).2 hlater

end Grammar

/-! ## Whole programs -/

/-- The items of a complete program come first, whatever tokens follow. -/
theorem Reading.items_prefix {tokens : List Token} (open_end : ∀ t ∈ tokens, t.kind ≠ .endOfFile)
    (complete : (ofTokens tokens).fault? = none) (others : List Token) :
    (ofTokens tokens).items <+: (ofTokens (tokens ++ others)).items := by
  obtain ⟨items, c, hread⟩ := (fault?_ofTokens tokens).1 complete
  have hlength : (Cursor.start tokens).rest.length ≤ tokens.length := by
    rw [Cursor.rest_start]
    exact (List.takeWhile_sublist _).length_le
  have hbounds : tokens.length ≤ (tokens ++ others).length := by simp
  rw [items_ofTokens, items_ofTokens, Cursor.start_append open_end, Parse.complete_of_reads hread]
  exact Grammar.program_begins (Cursor.kind_stop_start tokens) hlength hbounds hbounds hread _ _

namespace Env

variable {env : Env} {items items' : List Item}

theorem definitions_prefix (h : items <+: items') :
    (env.run items).value.1 <+: (env.run items').value.1 := by
  obtain ⟨rest, rfl⟩ := h
  rw [definitions_append]
  exact List.prefix_append _ _

theorem reports_prefix (h : items <+: items') :
    (env.run items).reports <+: (env.run items').reports := by
  obtain ⟨rest, rfl⟩ := h
  rw [reports_run_append]
  exact List.prefix_append _ _

end Env

namespace Analysis

/-- **What follows a complete program changes nothing that was concluded about it**: its diagnostics
and its functions, with their trees and tables, come first in those of the longer program, whether
or not that is a program too. -/
theorem prefix_stable {tokens : List Token} (open_end : ∀ t ∈ tokens, t.kind ≠ .endOfFile)
    (complete : (ofTokens tokens).table?.isSome) (others : List Token) :
    (∀ src : Source, (ofTokens tokens).reports.map (·.diagnostic src) <+:
      (ofTokens (tokens ++ others)).reports.map (·.diagnostic src)) ∧
    (ofTokens tokens).definitions <+: (ofTokens (tokens ++ others)).definitions := by
  have hfault := (table?_ofTokens tokens).1 complete
  have hitems := Reading.items_prefix open_end hfault others
  constructor
  · intro src
    rw [reports_ofTokens, reports_ofTokens, hfault, Option.map_none, Option.toList_none,
      List.append_nil]
    have hsemantic : (Env.empty.run (Reading.ofTokens tokens).items).reports <+:
        (Env.empty.run (Reading.ofTokens (tokens ++ others)).items).reports :=
      Env.reports_prefix hitems
    have hreports := hsemantic.map (·.map Fault.semantic)
    exact (hreports.trans (List.prefix_append _ _)).map _
  · rw [definitions_ofTokens, definitions_ofTokens]
    exact Env.definitions_prefix hitems

/-- A redeclared and an undeclared variable, reported on their own and in front of a broken end. -/
theorem prefix_stable_reported :
    let tokens := Token.spaced 0
      [(.typeWord .int, "int"), (.identifier, "a"), (.punct .comma, ","), (.identifier, "a"),
        (.punct .semicolon, ";"), (.typeWord .int, "int"), (.identifier, "f"),
        (.punct .leftParen, "("), (.typeWord .void, "void"), (.punct .rightParen, ")"),
        (.punct .leftBrace, "\x7b"), (.keyword .returnWord, "return"), (.identifier, "b"),
        (.punct .semicolon, ";"), (.punct .rightBrace, "\x7d")]
    let others := Token.spaced 50
      [(.keyword .elseWord, "else"), (.typeWord .int, "int"), (.identifier, "b")]
    ((ofTokens tokens).reports.length = 2 ∧ (ofTokens tokens).definitions.length = 1 ∧
      (ofTokens (tokens ++ others)).table? = none) ∧
    (∀ src : Source, (ofTokens tokens).reports.map (·.diagnostic src) <+:
      (ofTokens (tokens ++ others)).reports.map (·.diagnostic src)) ∧
    (ofTokens tokens).definitions <+: (ofTokens (tokens ++ others)).definitions := by
  intro tokens others
  exact ⟨by decide +kernel, prefix_stable (by decide +kernel) (by decide +kernel) others⟩

end Analysis

end Cmm
