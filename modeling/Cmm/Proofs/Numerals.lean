import Cmm.Proofs.Constants
import Cmm.Proofs.Signatures
import Mathlib.Data.Nat.Digits.Defs

/-!
# Numerals

* `Numeral.decimal` — the number that a row of digits is written for.
* `Table.Gains` — a table has one new symbol more than another.
* `Token.MeansSize` — what a token does as the size of an array.
* `numerals_exact` — a numeral means its number, and is reported once where it is too large.
-/

set_option autoImplicit false

namespace Cmm

namespace Numeral

/-- The number that a row of digits is written for, the last digit counting ones. -/
def decimal (lexeme : String) : Nat := Nat.ofDigits 10 (lexeme.toList.map digit).reverse

theorem value?_of_digits {lexeme : String} (hne : lexeme.toList ≠ [])
    (hdigits : ∀ c ∈ lexeme.toList, c.isDigit) :
    value? lexeme.toList = some (decimal lexeme) := by
  have hall : lexeme.toList.all Char.isDigit := List.all_eq_true.2 hdigits
  rw [value?, if_pos ⟨hne, hall⟩, decimal, Nat.ofDigits_eq_foldr, List.foldr_reverse,
    List.foldl_map]
  congr 2
  funext n c
  simp [Nat.add_comm]

/-- A number written without a sign has none. -/
theorem unsigned {lexeme : String} (hdigits : ∀ c ∈ lexeme.toList, c.isDigit) (rest : List Char) :
    lexeme.toList ≠ '-' :: rest ∧ lexeme.toList ≠ '+' :: rest := by
  constructor
  all_goals
    intro h
    rw [h] at hdigits
    exact absurd (hdigits _ List.mem_cons_self) (by decide)

variable {lexeme : String}

theorem constant?_of_digits (hne : lexeme.toList ≠ []) (hdigits : ∀ c ∈ lexeme.toList, c.isDigit) :
    constant? lexeme = if decimal lexeme < constantLimit then some ↑(decimal lexeme) else none := by
  have hsign := unsigned hdigits
  unfold constant?
  split
  · exact absurd ‹_› (hsign _).1
  · exact absurd ‹_› (hsign _).2
  · rw [value?_of_digits hne hdigits, Option.filter_some]
    by_cases h : decimal lexeme < constantLimit <;> simp [h]

theorem size?_of_digits (hne : lexeme.toList ≠ []) (hdigits : ∀ c ∈ lexeme.toList, c.isDigit) :
    size? lexeme = if decimal lexeme < sizeLimit then some (decimal lexeme) else none := by
  have hsign := unsigned hdigits
  unfold size?
  split
  · exact absurd ‹_› (hsign _).2
  · rw [value?_of_digits hne hdigits, Option.filter_some]
    by_cases h : decimal lexeme < sizeLimit <;> simp [h]

end Numeral

/-! ## New arrays -/

/-- A name that was pushed last is found. -/
theorem Bindings.find?_push_self (b : Bindings) (s : Symbol) :
    (b.push s).find? s.name = some b.entries.size := by
  rw [find?, chains_push, if_pos rfl]
  exact List.find?_cons_of_pos (isNamed_iff.2 ⟨s, by simp [entries_push], rfl⟩)

namespace Table

variable {t : Table} {s : Symbol}

/-- A table has a symbol more than another one, under a name that is new in its scope. -/
structure Gains (t t' : Table) (s : Symbol) : Prop where
  fresh : t.lookup s.name s.scope = none
  found : ∃ h, t'.lookup s.name s.scope = some h ∧ t'.get? h = some s
  others : ∀ h, t'.lookup s.name s.scope ≠ some h → t'.get? h = t.get? h

theorem Gains.push (fresh : t.lookup s.name s.scope = none) :
    t.Gains (t.update s.scope (·.push s)) s := by
  generalize hnew : t.update s.scope (·.push s) = t'
  have hbindings : t'.bindings s.scope = (t.bindings s.scope).push s := by
    rw [← hnew, bindings_update, if_pos rfl]
  have hfound : t'.lookup s.name s.scope =
      some (t'.handle s.scope (t.bindings s.scope).entries.size) := by
    rw [lookup, hbindings, Bindings.find?_push_self]
    rfl
  refine ⟨fresh, ⟨_, hfound, ?_⟩, ?_⟩
  · rw [get?_handle, hbindings, Bindings.entries_push, Array.getElem?_push_size]
  · intro h hne
    rw [hfound, Ne, Option.some.injEq] at hne
    apply Option.ext
    intro s'
    rw [get?_eq_some_iff, get?_eq_some_iff]
    by_cases hscope : h.scope = s.scope
    · rw [hscope, hbindings, Bindings.entries_push, Array.getElem?_push]
      apply and_congr_right
      intro hgeneration
      have hindex : h.index ≠ (t.bindings s.scope).entries.size := by
        intro hindex
        apply hne
        rw [handle, hbindings, hgeneration, ← hindex, ← hscope]
      rw [if_neg hindex]
    · rw [← hnew, bindings_update, if_neg (Ne.symm hscope)]

theorem modify_handle (t : Table) (scope : Scope) (i : Nat) (f : Symbol → Symbol) :
    t.modify (t.handle scope i) f = t.update scope (·.modify i f) := by
  cases scope with
  | global => exact congrArg (fun b => { t with globals := b }) (if_pos rfl)
  | «local» => exact congrArg (fun b => { t with locals := b }) (if_pos rfl)

/-- A new name that is rewritten at once is there as it is rewritten. -/
theorem modify_insert_of_fresh {name : String} {scope : Scope} {span : Span}
    (fresh : t.lookup name scope = none) {f : Symbol → Symbol}
    (keeps : (f (.fresh name scope span)).name = name) :
    (t.insert name scope span).value.2.modify (t.insert name scope span).value.1 f =
      t.update scope (·.push (f (.fresh name scope span))) := by
  rw [(insert_of_none (Option.map_eq_none_iff.1 fresh)).1]
  have hhandle : t.handle scope (t.bindings scope).entries.size =
      (t.update scope (·.push (.fresh name scope span))).handle scope
        (t.bindings scope).entries.size := by
    cases scope <;> rfl
  dsimp only
  rw [hhandle, modify_handle]
  have hpush := Bindings.modify_push (b := t.bindings scope) (.fresh name scope span) keeps
  cases scope with
  | global => exact congrArg (fun b => { t with globals := b }) hpush
  | «local» => exact congrArg (fun b => { t with locals := b }) hpush

end Table

namespace Env

variable {env : Env} {name : String} {scalar : Scalar}

/-- An array whose name is new adds its symbol to the table, without a report. -/
theorem declareArray_of_fresh (hspec : env.frame.spec.scalar? = some scalar)
    (fresh : env.table.lookup name env.frame.scope = none) (count : Nat) (span : Span) :
    let s : Symbol := ⟨name, env.frame.scope, .array scalar, some count, false, none, span⟩
    (env.declareArray name count span).value =
        { env with table := env.table.update env.frame.scope (·.push s) } ∧
      (env.declareArray name count span).reports = [] := by
  intro s
  obtain ⟨hvalue, hreports⟩ := declareWith_of_some hspec name span fun scalar s =>
    { s with ty := .array scalar, count? := some count, isFormal := false }
  rw [Table.modify_insert_of_fresh fresh rfl] at hvalue
  rw [(Table.insert_of_none (Option.map_eq_none_iff.1 fresh)).2] at hreports
  exact ⟨hvalue, hreports⟩

/-- An array whose name is new has as many elements as its size says. A size that does not fit is
reported and counts as zero. -/
theorem step_array_of_fresh {size : String} (hspec : env.frame.spec.scalar? = some scalar)
    (fresh : env.table.lookup name env.frame.scope = none) (sizeSpan span : Span) :
    let stepped := env.step (.array name size sizeSpan span)
    let s : Symbol := ⟨name, env.frame.scope, .array scalar, some ((Numeral.size? size).getD 0),
      false, none, span⟩
    stepped.value.1 = none ∧ stepped.value.2.frame = env.frame ∧
      env.table.Gains stepped.value.2.table s ∧
      stepped.reports =
        if (Numeral.size? size).isSome then [] else [⟨.oversizedArray size, sizeSpan⟩] := by
  intro stepped s
  obtain ⟨hvalue, hreports⟩ :=
    declareArray_of_fresh hspec fresh ((Numeral.size? size).getD 0) span
  have hstep : stepped.value.2 = (env.declareArray name ((Numeral.size? size).getD 0) span).value :=
    value_declareSized env name size sizeSpan span
  rw [hstep, hvalue]
  refine ⟨rfl, rfl, Table.Gains.push (s := s) fresh, ?_⟩
  show (env.declareSized name size sizeSpan span).reports ++ [] = _
  rw [List.append_nil, declareSized]
  cases hsize : Numeral.size? size with
  | some count =>
      rw [hsize] at hreports
      exact hreports
  | none =>
      rw [hsize] at hreports
      exact congrArg (_ :: ·) hreports

end Env

/-! ## Numerals in programs -/

/-- Between brackets behind a name, the token makes an array of a number of elements: the name, if
it is new, gains the symbol of such an array, with these reports. -/
structure Token.MeansSize (t : Token) (count : Nat) (reports : List (Report SemanticFault)) :
    Prop where
  reads : ∀ (name : String) (first last : Span) (left right : Token) (more : List Token)
    (stop : Token), left.kind = .punct .leftBracket → right.kind = .punct .rightBracket →
    Parse.Reads (Grammar.declarator name first) ⟨last, left :: t :: right :: more, stop⟩
      (.array name t.lexeme t.span (first.hull right.span)) ⟨right.span, more, stop⟩
  declares : ∀ (env : Env) (name : String) (scalar : Scalar) (span : Span),
    env.frame.spec.scalar? = some scalar → env.table.lookup name env.frame.scope = none →
    let stepped := env.step (.array name t.lexeme t.span span)
    stepped.value.1 = none ∧ stepped.value.2.frame = env.frame ∧
      env.table.Gains stepped.value.2.table
        ⟨name, env.frame.scope, .array scalar, some count, false, none, span⟩ ∧
      stepped.reports = reports

namespace Token

variable {t : Token}

open Parse Numeral

/-- A numeral is a row of digits. -/
theorem digits_of_numeral (ht : IsWord t.word) (hkind : t.kind = .intLiteral) :
    t.lexeme.toList ≠ [] ∧ ∀ c ∈ t.lexeme.toList, c.isDigit := by
  unfold IsWord word at ht
  rw [hkind] at ht
  generalize t.lexeme.toList = text at ht
  cases ht with
  | reserved known => exact absurd rfl (Lexeme.kind_ne_of_mem_reserved _ known).2.2
  | number first rest => exact ⟨List.cons_ne_nil _ _, List.forall_mem_cons.2 ⟨first, rest⟩⟩

/-- A numeral is read as it is written. -/
theorem standsFor_int (hkind : t.kind = .intLiteral) : t.StandsFor (.int t.lexeme t.span) := by
  rintro c fuel rfl
  refine .bind (reads_next.2 ⟨rfl, rfl⟩) ?_
  simp only [hkind]
  exact .bind .advance (.pure _)

variable (hne : t.lexeme.toList ≠ []) (hdigits : ∀ c ∈ t.lexeme.toList, c.isDigit)

include hne hdigits

/-- As a constant, a row of digits has the value of its number, or is reported. -/
theorem check_int (table : Table) : (Expr.int t.lexeme t.span).check table =
    if decimal t.lexeme ≤ 2 ^ 63 - 1 then pure ⟨.int (decimal t.lexeme), .int, t.span⟩
    else ⟨.error t.span, [⟨.oversizedConstant t.lexeme, t.span⟩]⟩ := by
  have hlimit : decimal t.lexeme < constantLimit ↔ decimal t.lexeme ≤ 2 ^ 63 - 1 := by
    unfold constantLimit
    omega
  rw [Expr.check, constant?_of_digits hne hdigits]
  by_cases hfits : decimal t.lexeme ≤ 2 ^ 63 - 1
  · rw [if_pos (hlimit.2 hfits), if_pos hfits]
    rfl
  · rw [if_neg (mt hlimit.1 hfits), if_neg hfits]
    rfl

/-- As a size, a row of digits gives as many elements as its number, or is reported. -/
theorem meansSize (hkind : t.kind = .intLiteral) :
    t.MeansSize (if decimal t.lexeme ≤ 2 ^ 32 - 1 then decimal t.lexeme else 0)
      (if decimal t.lexeme ≤ 2 ^ 32 - 1 then [] else [⟨.oversizedArray t.lexeme, t.span⟩]) := by
  have hlimit : decimal t.lexeme < sizeLimit ↔ decimal t.lexeme ≤ 2 ^ 32 - 1 := by
    unfold sizeLimit
    omega
  have hsize := size?_of_digits hne hdigits
  simp only [hlimit] at hsize
  constructor
  · intro name first last left right more stop hleft hright
    refine .accept hleft (.bind (reads_require.2 ⟨hkind, rfl, rfl⟩) ?_)
    exact .bind (.expect hright) (.bind (reads_spanFrom.2 ⟨rfl, rfl⟩) (.pure _))
  · intro env name scalar span hspec fresh
    have hstep := @Env.step_array_of_fresh env name scalar t.lexeme hspec fresh t.span span
    rw [hsize] at hstep
    by_cases hfits : decimal t.lexeme ≤ 2 ^ 32 - 1
    · simp only [if_pos hfits] at hstep ⊢
      exact hstep
    · simp only [if_neg hfits] at hstep ⊢
      exact hstep

end Token

open Numeral in
/-- **Numerals are exact or reported.** Every such token of a text is a row of digits. As an operand
it is the constant of their number up to `2 ^ 63 - 1`, and beyond it an error with one report. As
the size of an array whose name is new it gives that many elements up to `2 ^ 32 - 1`, and beyond
it none, with one report. -/
theorem numerals_exact (text : String) : ∀ t ∈ (scan text).tokens, t.kind = .intLiteral →
    (t.lexeme.toList ≠ [] ∧ ∀ c ∈ t.lexeme.toList, c.isDigit) ∧
    t.StandsFor (.int t.lexeme t.span) ∧
    (∀ table, (Expr.int t.lexeme t.span).check table =
      if decimal t.lexeme ≤ 2 ^ 63 - 1 then pure ⟨.int (decimal t.lexeme), .int, t.span⟩
      else ⟨.error t.span, [⟨.oversizedConstant t.lexeme, t.span⟩]⟩) ∧
    t.MeansSize (if decimal t.lexeme ≤ 2 ^ 32 - 1 then decimal t.lexeme else 0)
      (if decimal t.lexeme ≤ 2 ^ 32 - 1 then [] else [⟨.oversizedArray t.lexeme, t.span⟩]) ∧
    (SemanticFault.oversizedConstant t.lexeme).code = "E005" ∧
    (SemanticFault.oversizedArray t.lexeme).code = "E005" := by
  intro t ht hkind
  have hword := isWord_of_mem_scan ht (by simp [hkind])
  obtain ⟨hne, hdigits⟩ := Token.digits_of_numeral hword hkind
  exact ⟨⟨hne, hdigits⟩, Token.standsFor_int hkind, Token.check_int hne hdigits,
    Token.meansSize hne hdigits hkind, rfl, rfl⟩

/-- `int a[4294967296];` gives an array of no elements, and `007` is seven. -/
theorem numerals_exact_limits :
    let text := "int a[4294967296]; 007"
    let size : Token := ⟨.intLiteral, "4294967296", ⟨6, 10⟩⟩
    let seven : Token := ⟨.intLiteral, "007", ⟨19, 3⟩⟩
    (size ∈ (scan text).tokens ∧ size.kind = .intLiteral ∧
      size.MeansSize 0 [⟨.oversizedArray "4294967296", ⟨6, 10⟩⟩]) ∧
    seven ∈ (scan text).tokens ∧ seven.kind = .intLiteral ∧
      (Expr.int "007" ⟨19, 3⟩).check .empty = pure ⟨.int 7, .int, ⟨19, 3⟩⟩ := by
  intro text size seven
  have hsize : size ∈ (scan text).tokens := by decide +kernel
  have hseven : seven ∈ (scan text).tokens := by decide +kernel
  have hlarge : ¬ Numeral.decimal size.lexeme ≤ 2 ^ 32 - 1 := by decide +kernel
  have hsmall : Numeral.decimal seven.lexeme = 7 := by decide +kernel
  obtain ⟨-, -, -, hmeans, -⟩ := numerals_exact text size hsize rfl
  obtain ⟨-, -, hcheck, -⟩ := numerals_exact text seven hseven rfl
  rw [if_neg hlarge, if_neg hlarge] at hmeans
  rw [hsmall] at hcheck
  exact ⟨⟨hsize, rfl, hmeans⟩, hseven, rfl, hcheck .empty⟩

end Cmm
