import Cmm.Diagnostic
import Cmm.Proofs.Sentence.Exact

/-!
# Syntax errors

* `isSyntaxCode` — the codes of syntax errors: `E1` and two digits.
* `SyntaxFault.isSyntaxCode_code`, `SemanticFault.isSyntaxCode_code` — every interruption has such a
  code, and no broken rule of the language has.
* `Analysis.syntax_error_once` — a program leaves no table exactly where it has a syntax error; it
  has one only, and nothing is reported behind it.
-/

set_option autoImplicit false

namespace Cmm

/-- The codes of syntax errors: `E1` and two digits. -/
def isSyntaxCode (code : String) : Bool :=
  match code.toList with
  | ['E', '1', a, b] => a.isDigit && b.isDigit
  | _ => false

/-- Every place where a program cannot go on has such a code. -/
theorem SyntaxFault.isSyntaxCode_code (f : SyntaxFault) : isSyntaxCode f.code = true := by
  obtain ⟨expected, found⟩ := f
  cases expected <;> simp [SyntaxFault.code, Expected.code, isSyntaxCode]

/-- No broken rule of the language has. -/
theorem SemanticFault.isSyntaxCode_code (f : SemanticFault) : isSyntaxCode f.code = false := by
  cases f <;> simp [SemanticFault.code, isSyntaxCode]

namespace Analysis

/-- The diagnostics of a program, in the order they came in. -/
def diagnostics (a : Analysis) (src : Source) : List Diagnostic := a.reports.map (·.diagnostic src)

/-- The diagnostics of a program are those of broken rules, and behind them that of the token where
it cannot go on. -/
theorem diagnostics_ofTokens (tokens : List Token) (src : Source) : ∃ semantic : List Diagnostic,
    (∀ d ∈ semantic, isSyntaxCode d.code = false) ∧
    (ofTokens tokens).diagnostics src = semantic ++ ((Reading.ofTokens tokens).fault?.map fun f =>
      Report.diagnostic ⟨.syntactic f, f.found.span⟩ src).toList := by
  refine ⟨((Env.empty.run (Reading.ofTokens tokens).items).reports.map
    (·.map Fault.semantic)).map (·.diagnostic src), ?_, ?_⟩
  · rw [List.map_map]
    intro d hd
    obtain ⟨x, -, rfl⟩ := List.mem_map.1 hd
    exact x.fault.isSyntaxCode_code
  · rw [diagnostics, reports_ofTokens, List.map_append]
    cases (Reading.ofTokens tokens).fault? <;> rfl

/-- Nothing is reported behind a syntax error. -/
theorem nil_behind_syntax_error {tokens : List Token} {src : Source}
    {before after : List Diagnostic} {d : Diagnostic}
    (h : (ofTokens tokens).diagnostics src = before ++ d :: after)
    (hd : isSyntaxCode d.code = true) : after = [] := by
  obtain ⟨semantic, hclean, hall⟩ := diagnostics_ofTokens tokens src
  rw [h] at hall
  generalize (Reading.ofTokens tokens).fault? = fault? at hall
  have hone : ∀ front, front ++ d :: after =
      (fault?.map fun f => Report.diagnostic ⟨.syntactic f, f.found.span⟩ src).toList →
      after = [] := by
    intro front hfront
    cases fault? <;> simp_all [List.append_eq_singleton_iff]
  rcases List.append_eq_append_iff.1 hall with ⟨between, rfl, hlast⟩ | ⟨between, -, hlast⟩
  · cases between with
    | nil => exact hone [] hlast
    | cons e rest =>
        obtain ⟨rfl, -⟩ := List.cons.inj hlast
        have := hclean d (List.mem_append_right _ List.mem_cons_self)
        rw [hd] at this
        cases this
  · exact hone between hlast.symm

/-- **A syntax error is reported once and ends the run.** A program leaves no table exactly where
its diagnostics end in a syntax error with none before it, and exactly where there is a syntax error
at all; it leaves one exactly where none of its diagnostics is a syntax error. -/
theorem syntax_error_once (tokens : List Token) (src : Source) :
    ((ofTokens tokens).table? = none ↔
      ∃ before last, (ofTokens tokens).diagnostics src = before ++ [last] ∧
        isSyntaxCode last.code = true ∧ ∀ d ∈ before, isSyntaxCode d.code = false) ∧
    ((ofTokens tokens).table? = none ↔
      ∃ d ∈ (ofTokens tokens).diagnostics src, isSyntaxCode d.code = true) ∧
    ((ofTokens tokens).table?.isSome = true ↔
      ∀ d ∈ (ofTokens tokens).diagnostics src, isSyntaxCode d.code = false) := by
  have htable := table?_ofTokens tokens
  obtain ⟨semantic, hclean, hall⟩ := diagnostics_ofTokens tokens src
  rw [hall]
  cases hf : (Reading.ofTokens tokens).fault? with
  | none =>
      have hsome : (ofTokens tokens).table? ≠ none := Option.isSome_iff_ne_none.1 (htable.2 hf)
      rw [Option.map_none, Option.toList_none, List.append_nil]
      refine ⟨⟨fun h => absurd h hsome, ?_⟩, ⟨fun h => absurd h hsome, ?_⟩, ?_⟩
      · rintro ⟨before, last, rfl, hlast, -⟩
        rw [hclean last (List.mem_append_right _ List.mem_cons_self)] at hlast
        cases hlast
      · rintro ⟨d, hd, hsyntax⟩
        rw [hclean d hd] at hsyntax
        cases hsyntax
      · exact ⟨fun _ => hclean, fun _ => htable.2 hf⟩
  | some f =>
      have hnone : (ofTokens tokens).table? = none := by
        rw [← Option.not_isSome_iff_eq_none, htable, hf]
        simp
      let last : Diagnostic := Report.diagnostic ⟨.syntactic f, f.found.span⟩ src
      have hlast : isSyntaxCode last.code = true := f.isSyntaxCode_code
      have hmem : last ∈ semantic ++ [last] := List.mem_append_right _ List.mem_cons_self
      refine ⟨⟨fun _ => ⟨semantic, last, rfl, hlast, hclean⟩, fun _ => hnone⟩,
        ⟨fun _ => ⟨last, hmem, hlast⟩, fun _ => hnone⟩, fun h => ?_, fun h => ?_⟩
      · rw [hnone] at h
        cases h
      · rw [h last hmem] at hlast
        cases hlast

end Analysis

end Cmm
