import Cmm.Proofs.Typing.Rules

/-!
# How each check comes out

One lemma per check of a construct, over its checked parts. A check comes out in one of three ways:
the construct obeys its rule and becomes a node without a report, a part that has a report absorbs
it, or it is `Refused`: reported, with a tree that stands for an error.

* `var_spec`, `element_spec`, `call_spec`, `callStatement_spec` — names; `callOf_spec` is shared by
  the two kinds of call.
* `unary_spec`, `binary_spec` — operators.
* `assign_spec`, `condition_reports`, `forLoop_spec`, `ret_spec` — statements.
* `Suit` — arguments against parameters; `matchArguments_spec` is its check.
-/

set_option autoImplicit false

namespace Cmm.Typing

variable {t : Table}

/-- A construct that is reported and becomes an error. -/
structure Refused (x : Checked Node) (span : Span) : Prop where
  reported : x.reports ≠ []
  value : x.value = .error span

theorem refused_fail (fault : SemanticFault) (place span : Span) :
    Refused (fail fault place span) span :=
  ⟨by simp [fail, Checked.report], rfl⟩

theorem reports_reportIf {condition : Bool} {fault : SemanticFault} {span : Span} :
    (Checked.reportIf condition fault span).reports = [] ↔ condition = false := by
  cases condition <;> simp [Checked.reportIf, Checked.report]

/-! ## Names -/

theorem var_spec (ht : t.Sound) (name : String) (span : Span) :
    (∃ h s, t.Denotes name h s ∧ var t name span = pure ⟨.var h, s.ty, span⟩) ∨
      (∀ h s, ¬ t.Denotes name h s) ∧ Refused (var t name span) span := by
  unfold var
  cases hl : t.lookupAny name with
  | none => exact .inr ⟨(Table.lookupAny_eq_none_iff ht).1 hl, refused_fail _ _ _⟩
  | some h =>
      obtain ⟨s, hd⟩ := (Table.lookupAny_eq_some_iff ht).1 hl
      exact .inl ⟨h, s, hd, by simp [hd.get]⟩

theorem badIndex_iff {index : Node} :
    badIndex index = false ↔ index.ty.IsNumber ∨ index.ty = .error := by
  unfold badIndex
  rw [← Ty.isArith_iff, ← Ty.isError_iff]
  cases index.ty.isArith <;> simp

theorem element_spec (ht : t.Sound) (name : String) (index : Node) (span : Span) :
    (∃ h s scalar, t.Denotes name h s ∧ s.ty = .array scalar ∧
      (index.ty.IsNumber ∨ index.ty = .error) ∧
      element t name index span = pure ⟨.element h index, scalar.ty, span⟩) ∨
    (∀ h s scalar, t.Denotes name h s → s.ty = .array scalar →
      ¬ (index.ty.IsNumber ∨ index.ty = .error)) ∧ Refused (element t name index span) span := by
  unfold element
  cases hl : t.lookupAny name with
  | none =>
      refine .inr ⟨fun h s _ hd => absurd hd ((Table.lookupAny_eq_none_iff ht).1 hl h s), ?_, rfl⟩
      simp [Checked.report]
  | some h =>
      obtain ⟨s, hd⟩ := (Table.lookupAny_eq_some_iff ht).1 hl
      simp only [Option.bind_some, hd.get]
      cases he : s.ty.element? with
      | none =>
          refine .inr ⟨?_, by simp [Checked.report], rfl⟩
          intro h' s' scalar hd' ha
          rw [(hd.unique ht hd').2, ha] at he
          cases he
      | some scalar =>
          have ha : s.ty = .array scalar := by
            cases hty : s.ty <;> simp_all [Ty.element?]
          cases hb : badIndex index with
          | false =>
              exact .inl ⟨h, s, scalar, hd, ha, badIndex_iff.1 hb, by simp [Checked.reportIf]; rfl⟩
          | true =>
              refine .inr ⟨fun _ _ _ _ _ hi => ?_, by simp [Checked.reportIf, Checked.report], rfl⟩
              rw [badIndex_iff.2 hi] at hb
              cases hb

/-! ## Calls -/

/-- The arguments suit the parameters one by one; an argument with a report suits any. -/
def Suit (formals : List Formal) (args : List Node) : Prop :=
  List.Forall₂ (fun formal arg => arg.ty = .error ∨ formal.ty.Passes arg.ty) formals args

theorem argumentFaults_eq_nil_iff (name : String) (position : Nat) {formals : List Formal}
    {args : List Node} (hlen : formals.length = args.length) :
    argumentFaults name position formals args = [] ↔ Suit formals args := by
  induction formals generalizing position args with
  | nil =>
      cases args with
      | nil => simp [argumentFaults, Suit]
      | cons arg args => simp at hlen
  | cons formal formals ih =>
      cases args with
      | nil => simp at hlen
      | cons arg args =>
          have hlen' : formals.length = args.length := by simpa using hlen
          rw [Suit, List.forall₂_cons, ← Suit, ← ih (position + 1) hlen', argumentFaults,
            ← Ty.isError_iff, ← Ty.suits_iff, ← Bool.or_eq_true]
          split
          · rename_i h
            simp [h]
          · rename_i h
            simp [h]

theorem matchArguments_spec {callee : Handle} {s : Symbol} (hs : t.get? callee = some s)
    (args : Option Node) (span : Span) :
    (Suit s.formals (actuals args) ∧ matchArguments t callee args span = pure true) ∨
      ¬ Suit s.formals (actuals args) ∧ (matchArguments t callee args span).value = false ∧
        (matchArguments t callee args span).reports ≠ [] := by
  unfold matchArguments
  rw [hs]
  dsimp only
  by_cases hlen : s.formals.length = (actuals args).length
  · rw [if_pos hlen, List.append_nil]
    have hnil := argumentFaults_eq_nil_iff s.name 1 hlen
    by_cases hsuit : Suit s.formals (actuals args)
    · rw [hnil.2 hsuit]
      exact .inl ⟨hsuit, rfl⟩
    · have hne : argumentFaults s.name 1 s.formals (actuals args) ≠ [] := fun h => hsuit (hnil.1 h)
      exact .inr ⟨hsuit, by simpa using hne, hne⟩
  · rw [if_neg hlen]
    exact .inr ⟨fun h => hlen h.length_eq, by simp, by simp⟩

/-- The call of a function with arguments that suit. As a statement it needs no result. -/
theorem callOf_of_suit {h : Handle} {s : Symbol} {sig : Signature} {args : Option Node}
    (found : t.get? h = some s) (is_function : s.ty = .function)
    (signature : s.signature? = some sig) (suit : Suit sig.formals (actuals args)) (name : String)
    (span : Span) (asStatement : Bool) (unused : asStatement = true → sig.result = .void) :
    callOf t name h args span asStatement = pure ⟨.call h args, sig.result.ty, span⟩ := by
  have hresult : (asStatement && sig.result != .void) = false := by
    cases asStatement with
    | false => rfl
    | true => simp [unused rfl]
  have hmatch : matchArguments t h args span = pure true := by
    rcases matchArguments_spec found args span with ⟨-, hmatch⟩ | ⟨hno, -⟩
    · exact hmatch
    · rw [Symbol.formals, signature] at hno
      exact absurd suit hno
  simp only [callOf, found, Option.map_some, Option.bind_some, Option.getD_some, Symbol.isFunction,
    is_function, Symbol.result?, signature, hresult, hmatch]
  rfl

theorem callOf_spec {h : Handle} {s : Symbol} (hs : t.get? h = some s) (coherent : s.Coherent)
    (name : String) (args : Option Node) (span : Span) (asStatement : Bool) :
    (∃ sig, s.ty = .function ∧ s.signature? = some sig ∧
      (asStatement = true → sig.result = .void) ∧ Suit sig.formals (actuals args) ∧
      callOf t name h args span asStatement = pure ⟨.call h args, sig.result.ty, span⟩) ∨
    (∀ sig, s.ty = .function → s.signature? = some sig →
      (asStatement = true → sig.result = .void) → ¬ Suit sig.formals (actuals args)) ∧
      Refused (callOf t name h args span asStatement) span := by
  unfold callOf
  simp only [hs, Option.map_some, Option.getD_some, Option.bind_some]
  by_cases hf : s.ty = .function
  · obtain ⟨sig, hsig⟩ := coherent.signature_of_function hf
    have hformals : s.formals = sig.formals := by simp [Symbol.formals, hsig]
    have hresult : s.result?.getD .void = sig.result := by simp [Symbol.result?, hsig]
    simp only [Symbol.isFunction, hf, beq_self_eq_true, Bool.not_true, Bool.false_eq_true,
      if_false, hresult]
    by_cases hv : asStatement = true → sig.result = .void
    · have hcond : (asStatement && sig.result != .void) = false := by
        cases asStatement <;> simp_all
      rw [hcond]
      simp only [Bool.false_eq_true, if_false]
      have hm := matchArguments_spec hs args span
      rw [hformals] at hm
      rcases hm with ⟨hsuit, hm⟩ | ⟨hsuit, hval, hrep⟩
      · exact .inl ⟨sig, trivial, hsig, hv, hsuit, by rw [hm]; rfl⟩
      · refine .inr ⟨fun sig' _ hsig' _ => ?_, by simpa using hrep, by simp [hval]⟩
        rw [hsig] at hsig'
        cases hsig'
        exact hsuit
    · have hcond : (asStatement && sig.result != .void) = true := by
        cases asStatement <;> simp_all
      rw [hcond]
      refine .inr ⟨fun sig' _ hsig' hv' => ?_, refused_fail _ _ _⟩
      rw [hsig] at hsig'
      cases hsig'
      exact absurd hv' hv
  · have : s.isFunction = false := by simpa [Symbol.isFunction] using hf
    rw [this]
    exact .inr ⟨fun _ hf' => absurd hf' hf, refused_fail _ _ _⟩

theorem call_spec (ht : t.Sound) (name : String) (args : Option Node) (span : Span) :
    (∃ h s sig, t.Denotes name h s ∧ s.ty = .function ∧ s.signature? = some sig ∧
      Suit sig.formals (actuals args) ∧
      call t name args span = pure ⟨.call h args, sig.result.ty, span⟩) ∨
    (∀ h s sig, t.Denotes name h s → s.ty = .function → s.signature? = some sig →
      ¬ Suit sig.formals (actuals args)) ∧ Refused (call t name args span) span := by
  unfold call
  cases hl : t.lookupAny name with
  | none =>
      exact .inr ⟨fun h s _ hd => absurd hd ((Table.lookupAny_eq_none_iff ht).1 hl h s),
        refused_fail _ _ _⟩
  | some h =>
      obtain ⟨s, hd⟩ := (Table.lookupAny_eq_some_iff ht).1 hl
      rcases callOf_spec hd.get (ht.coherent hd.get) name args span false with
        ⟨sig, hf, hsig, -, hsuit, hc⟩ | ⟨hno, hr⟩
      · exact .inl ⟨h, s, sig, hd, hf, hsig, hsuit, hc⟩
      · refine .inr ⟨fun h' s' sig hd' hf hsig => ?_, hr⟩
        obtain ⟨rfl, rfl⟩ := hd.unique ht hd'
        exact hno sig hf hsig (by simp)

/-- A call that stands as a statement is one of a function without a result. -/
theorem callStatement_spec (ht : t.Sound) (name : String) (args : Option Node) (span : Span) :
    (∃ h s sig, t.Denotes name h s ∧ s.ty = .function ∧ s.signature? = some sig ∧
      sig.result = .void ∧ Suit sig.formals (actuals args) ∧
      callStatement t name args span = pure ⟨.call h args, sig.result.ty, span⟩) ∨
    Refused (callStatement t name args span) span := by
  unfold callStatement
  cases hl : t.lookupAny name with
  | none => exact .inr (refused_fail _ _ _)
  | some h =>
      obtain ⟨s, hd⟩ := (Table.lookupAny_eq_some_iff ht).1 hl
      rcases callOf_spec hd.get (ht.coherent hd.get) name args span true with
        ⟨sig, hf, hsig, hv, hsuit, hc⟩ | ⟨-, hr⟩
      · exact .inl ⟨h, s, sig, hd, hf, hsig, hv rfl, hsuit, hc⟩
      · exact .inr hr

/-! ## Operators -/

theorem unary_spec (op : UnOp) (operand : Node) (span : Span) :
    (∃ ty, op.Applies operand.ty ty ∧ unary op operand span = pure ⟨.unary op operand, ty, span⟩) ∨
    (operand.ty = .error ∧ unary op operand span = pure (.error span)) ∨
    (∀ ty, ¬ op.Applies operand.ty ty) ∧ Refused (unary op operand span) span := by
  unfold unary
  by_cases he : operand.ty = .error
  · exact .inr (.inl ⟨he, by rw [if_pos (Ty.isError_iff.2 he)]⟩)
  · rw [if_neg (fun h => he (Ty.isError_iff.1 h))]
    cases op with
    | neg =>
        by_cases hn : operand.ty.IsNumber
        · exact .inl ⟨.int, .neg hn, by simp [Ty.isArith_iff.2 hn]⟩
        · have : operand.ty.isArith = false := by
            rw [← Bool.not_eq_true, Ty.isArith_iff]
            exact hn
          simp only [this, Bool.false_eq_true, if_false]
          refine .inr (.inr ⟨fun ty h => ?_, refused_fail _ _ _⟩)
          cases h with
          | neg h => exact hn h
    | not =>
        by_cases hb : operand.ty = .bool
        · exact .inl ⟨.bool, hb ▸ .not, by simp [hb]⟩
        · simp only [if_neg hb]
          refine .inr (.inr ⟨fun ty h => ?_, refused_fail _ _ _⟩)
          generalize operand.ty = ty' at *
          cases h with
          | not => exact hb rfl

theorem binary_spec (op : BinOp) (left right : Node) :
    (∃ ty, op.Applies left.ty right.ty ty ∧
      binary op left right = pure ⟨.binary op left right, ty, left.span.hull right.span⟩) ∨
    ((left.ty = .error ∨ right.ty = .error) ∧
      binary op left right = pure (.error (left.span.hull right.span))) ∨
    (∀ ty, ¬ op.Applies left.ty right.ty ty) ∧
      Refused (binary op left right) (left.span.hull right.span) := by
  unfold binary
  by_cases he : left.ty = .error ∨ right.ty = .error
  · refine .inr (.inl ⟨he, ?_⟩)
    rw [← Ty.isError_iff, ← Ty.isError_iff, ← Bool.or_eq_true] at he
    simp only [he, if_true]
  · have hf : (left.ty.isError || right.ty.isError) = false := by
      rw [← Bool.not_eq_true, Bool.or_eq_true, Ty.isError_iff, Ty.isError_iff]
      exact he
    simp only [hf, Bool.false_eq_true, if_false]
    by_cases ht : takes op left.ty = true ∧ takes op right.ty = true
    · refine .inl ⟨gives op, BinOp.takes_iff.1 ⟨ht.1, ht.2, rfl⟩, ?_⟩
      rw [if_pos (by rw [Bool.and_eq_true]; exact ht)]
    · rw [if_neg (by rw [Bool.and_eq_true]; exact ht)]
      refine .inr (.inr ⟨fun ty h => ?_, refused_fail _ _ _⟩)
      obtain ⟨hl, hr, -⟩ := BinOp.takes_iff.2 h
      exact ht ⟨hl, hr⟩

/-! ## Statements -/

theorem assign_spec (target value : Node) (span : Span) :
    (target.ty.IsNumber ∧ value.ty.IsNumber ∧
      assign target value span = pure ⟨.assign target value, .void, span⟩) ∨
    (target.isError = true ∧ assign target value span = pure target) ∨
    (value.isError = true ∧ assign target value span = pure value) ∨
    Refused (assign target value span) span := by
  unfold assign
  cases htE : target.isError with
  | true => exact .inr (.inl ⟨rfl, rfl⟩)
  | false =>
      cases hvE : value.isError with
      | true => exact .inr (.inr (.inl ⟨rfl, rfl⟩))
      | false =>
          cases htA : target.ty.isArith with
          | false => exact .inr (.inr (.inr (refused_fail _ _ _)))
          | true =>
              cases hvA : value.ty.isArith with
              | false => exact .inr (.inr (.inr (refused_fail _ _ _)))
              | true => exact .inl ⟨Ty.isArith_iff.1 htA, Ty.isArith_iff.1 hvA, rfl⟩

theorem condition_reports {test : Node} :
    (condition test).reports = [] ↔ test.ty = .bool ∨ test.ty = .error := by
  unfold condition
  rw [reports_reportIf]
  cases test.ty <;> simp [Ty.isError]

/-- A loop is made of its parts whether its test is reported or not. -/
theorem forLoop_spec (start test update body : Option Node) (span : Span) :
    (forLoop start test update body span).value =
        ⟨.forLoop start test update body, .void, span⟩ ∧
      ((forLoop start test update body span).reports = [] ↔
        ∀ n ∈ test, n.ty = .bool ∨ n.ty = .error) := by
  cases test with
  | none => exact ⟨rfl, by simp [forLoop]⟩
  | some test => exact ⟨rfl, by simp [forLoop, condition_reports]⟩

/-- Where a function has a result, its returns have a number or a tree with a report; where it has
none, they have nothing. -/
theorem ret_spec (result : TypeSpec) (value : Option Node) (span : Span) :
    (result = .void ∧ value = none ∧ ret result value span = pure ⟨.ret none, .void, span⟩) ∨
    (∃ v, result ≠ .void ∧ value = some v ∧ (v.ty.IsNumber ∨ v.ty = .error) ∧
      ret result value span = pure ⟨.ret (some v), v.ty, span⟩) ∨
    Refused (ret result value span) span := by
  unfold ret
  cases value with
  | none =>
      by_cases hr : result = .void
      · exact .inl ⟨hr, rfl, by simp [hr]⟩
      · simp only [if_neg hr]
        exact .inr (.inr (refused_fail _ _ _))
  | some v =>
      by_cases hr : result = .void
      · simp only [if_pos hr]
        exact .inr (.inr (refused_fail _ _ _))
      · simp only [if_neg hr]
        by_cases hv : v.ty.IsNumber ∨ v.ty = .error
        · refine .inr (.inl ⟨v, hr, rfl, hv, ?_⟩)
          rw [← Ty.isArith_iff, ← Ty.isError_iff, ← Bool.or_eq_true] at hv
          rw [if_pos hv]
        · rw [← Ty.isArith_iff, ← Ty.isError_iff, ← Bool.or_eq_true] at hv
          rw [if_neg hv]
          exact .inr (.inr (refused_fail _ _ _))

end Cmm.Typing
