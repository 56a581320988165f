import Cmm.Proofs.Typing.Checks
import Cmm.Proofs.Typing.Trees
import Cmm.Proofs.Env

/-!
# The checks of expressions against the typing rules

* `HasType.check` — an expression with a type passes every check; its tree has the type and the
  shape of the expression. Induction on the derivation.
* `hasType_of_reports_nil` — an expression that passes every check has the type of its tree, and the
  tree obeys the rules. Induction on the expression.
* `Mirrors.throughout` — a tree with the shape of an expression has no part that stands for an
  error.
* `check_exact` — both together, for the tables that a run of items leads to.
-/

set_option autoImplicit false

namespace Cmm

variable {t : Table}

/-! ## Arguments -/

theorem Typing.Suit.of_passes {formals : List Formal} {args : List Node}
    (h : List.Forall₂ Ty.Passes (formals.map (·.ty)) (args.map (·.ty))) :
    Typing.Suit formals args := by
  rw [List.forall₂_map_left_iff, List.forall₂_map_right_iff] at h
  exact h.imp fun _ _ => .inr

/-- Arguments without an error pass for the parameters that they suit. -/
theorem Typing.Suit.passes {formals : List Formal} {args : List Node}
    (h : Typing.Suit formals args) (hne : ∀ n ∈ args, n.ty ≠ .error) :
    List.Forall₂ (fun formal arg => formal.ty.Passes arg.ty) formals args := by
  induction h with
  | nil => exact .nil
  | cons hhead _ ih =>
      refine .cons (hhead.resolve_left (hne _ List.mem_cons_self)) (ih fun n hn => ?_)
      exact hne n (List.mem_cons_of_mem _ hn)

theorem Node.passedTo_argumentList {formals : List Formal} {args : List Node}
    (typed : ∀ n ∈ args, n.IsTyped t)
    (h : List.Forall₂ (fun formal arg => formal.ty.Passes arg.ty) formals args) :
    Node.PassedTo t formals (Node.argumentList args) := by
  induction h with
  | nil => exact .nil
  | cons hpass _ ih =>
      refine .cons _ (typed _ List.mem_cons_self) hpass (ih fun n hn => ?_)
      exact typed n (List.mem_cons_of_mem _ hn)

theorem Node.IsTyped.ne_error (ht : t.Sound) {n : Node} (h : n.IsTyped t) : n.ty ≠ .error :=
  (h.no_error ht).here.2

/-! ## Typed expressions pass -/

mutual

/-- An expression with a type is checked without a report. -/
theorem Expr.HasType.check (ht : t.Sound) : ∀ {e : Expr} {ty : Ty}, e.HasType t ty →
    (e.check t).reports = [] ∧ (e.check t).value.ty = ty ∧ e.Mirrors t (e.check t).value
  | _, _, .int fits => by
    simp only [Expr.check, fits]
    exact ⟨rfl, rfl, .int fits⟩
  | _, _, .char _ _ => ⟨rfl, rfl, .char⟩
  | _, _, .string _ _ => ⟨rfl, rfl, .string⟩
  | .var name span, _, .var found => by
    rcases Typing.var_spec ht name span with ⟨h', s', found', heq⟩ | ⟨hno, -⟩
    · obtain ⟨rfl, rfl⟩ := found.unique ht found'
      rw [Expr.check, heq]
      exact ⟨rfl, rfl, .var found⟩
    · exact absurd found (hno _ _)
  | .element array index span, _, .element found is_array typed number => by
    obtain ⟨hr, hty, hm⟩ := typed.check ht
    rw [Expr.check, Checked.reports_bind, Checked.value_bind, hr]
    rcases Typing.element_spec ht array (index.check t).value span with
      ⟨h', s', scalar, found', harr, -, heq⟩ | ⟨hno, -⟩
    · obtain ⟨rfl, rfl⟩ := found.unique ht found'
      rw [is_array, Ty.array.injEq] at harr
      rw [heq, harr]
      exact ⟨rfl, rfl, .element found hm⟩
    · exact absurd (.inl (hty ▸ number)) (hno _ _ _ found is_array)
  | .call callee args span, _, .call found is_function signature typed passes => by
    obtain ⟨hr, hty, hm⟩ := typed.checkAll ht
    rw [← hty] at passes
    rw [Expr.check, Checked.reports_bind, Checked.value_bind, hr]
    rcases Typing.call_spec ht callee (Node.argumentList (Expr.checkAll t args).value) span with
      ⟨h', s', sig', found', -, hsig, -, heq⟩ | ⟨hno, -⟩
    · obtain ⟨rfl, rfl⟩ := found.unique ht found'
      rw [signature, Option.some.injEq] at hsig
      rw [heq, hsig]
      exact ⟨rfl, rfl, .call found hm⟩
    · refine absurd ?_ (hno _ _ _ found is_function signature)
      rw [Node.items_argumentList]
      exact .of_passes passes
  | .unary op operand mark, _, .unary typed applies => by
    obtain ⟨hr, hty, hm⟩ := typed.check ht
    rw [← hty] at applies
    rw [Expr.check, Checked.reports_bind, Checked.value_bind, hr]
    rcases Typing.unary_spec op (operand.check t).value
      (mark.hull (operand.check t).value.span) with
      ⟨ty', applies', heq⟩ | ⟨herr, -⟩ | ⟨hno, -⟩
    · rw [heq, applies'.unique applies]
      exact ⟨rfl, rfl, .unary hm⟩
    · exact absurd herr applies.ne_error.1
    · exact absurd applies (hno _)
  | .binary op left right, _, .binary left_typed right_typed applies => by
    obtain ⟨hlr, hlty, hlm⟩ := left_typed.check ht
    obtain ⟨hrr, hrty, hrm⟩ := right_typed.check ht
    rw [← hlty, ← hrty] at applies
    rw [Expr.check, Checked.reports_bind, Checked.value_bind, Checked.reports_bind,
      Checked.value_bind, hlr, hrr]
    rcases Typing.binary_spec op (left.check t).value (right.check t).value with
      ⟨ty', applies', heq⟩ | ⟨herr, -⟩ | ⟨hno, -⟩
    · rw [heq, applies'.unique applies]
      exact ⟨rfl, rfl, .binary hlm hrm⟩
    · rcases herr with herr | herr
      · exact absurd herr applies.ne_error.1
      · exact absurd herr applies.ne_error.2.1
    · exact absurd applies (hno _)
  | .paren inner span, _, .paren typed => by
    obtain ⟨hr, hty, hm⟩ := typed.check ht
    rw [Expr.check, Checked.reports_bind, Checked.value_bind, hr]
    exact ⟨rfl, hty, .paren hm⟩

/-- Expressions with types are checked without a report. -/
theorem Expr.HasTypes.checkAll (ht : t.Sound) : ∀ {es : List Expr} {types : List Ty},
    Expr.HasTypes t es types → (Expr.checkAll t es).reports = [] ∧
      (Expr.checkAll t es).value.map (·.ty) = types ∧
      Expr.MirrorsAll t es (Expr.checkAll t es).value
  | _, _, .nil => ⟨rfl, rfl, .nil⟩
  | _, _, .cons head tail => by
    obtain ⟨hr, hty, hm⟩ := head.check ht
    obtain ⟨hrs, htys, hms⟩ := tail.checkAll ht
    rw [Expr.checkAll, Checked.reports_bind, Checked.value_bind, Checked.reports_bind,
      Checked.value_bind, hr, hrs, Checked.value_pure, List.map_cons, hty, htys]
    exact ⟨rfl, rfl, .cons hm hms⟩

end

/-! ## Expressions that pass are typed -/

mutual

/-- An expression that is checked without a report has the type of its tree. -/
theorem Expr.hasType_of_reports_nil (ht : t.Sound) : ∀ (e : Expr), (e.check t).reports = [] →
    e.HasType t (e.check t).value.ty ∧ (e.check t).value.IsTyped t
  | .int lexeme span, h => by
    rw [Expr.check] at h ⊢
    cases hc : Numeral.constant? lexeme with
    | some value => exact ⟨.int hc, .int value span⟩
    | none =>
        rw [hc] at h
        exact absurd h (Typing.refused_fail _ _ _).reported
  | .char value span, _ => ⟨.char value span, .char value span⟩
  | .string text span, _ => ⟨.string text span, .string text span⟩
  | .var name span, h => by
    rw [Expr.check] at h ⊢
    rcases Typing.var_spec ht name span with ⟨h', s, found, heq⟩ | ⟨-, hr⟩
    · rw [heq]
      exact ⟨.var found, .var span found.get⟩
    · exact absurd h hr.reported
  | .element array index span, h => by
    rw [Expr.check, Checked.reports_bind, List.append_eq_nil_iff] at h
    obtain ⟨htype, htyped⟩ := index.hasType_of_reports_nil ht h.1
    rw [Expr.check, Checked.value_bind]
    rcases Typing.element_spec ht array (index.check t).value span with
      ⟨h', s, scalar, found, harr, hnumber, heq⟩ | ⟨-, hr⟩
    · have hnumber := hnumber.resolve_right (htyped.ne_error ht)
      rw [heq]
      exact ⟨.element found harr htype hnumber, .element span found.get harr htyped hnumber⟩
    · exact absurd h.2 hr.reported
  | .call callee args span, h => by
    rw [Expr.check, Checked.reports_bind, List.append_eq_nil_iff] at h
    obtain ⟨htypes, htyped⟩ := Expr.hasTypes_of_reports_nil ht args h.1
    rw [Expr.check, Checked.value_bind]
    rcases Typing.call_spec ht callee (Node.argumentList (Expr.checkAll t args).value) span with
      ⟨h', s, sig, found, hf, hsig, hsuit, heq⟩ | ⟨-, hr⟩
    · rw [Node.items_argumentList] at hsuit
      have hpasses := hsuit.passes fun n hn => (htyped n hn).ne_error ht
      rw [heq]
      refine ⟨.call found hf hsig htypes ?_,
        .call span found.get hf hsig (Node.passedTo_argumentList htyped hpasses)⟩
      rw [List.forall₂_map_left_iff, List.forall₂_map_right_iff]
      exact hpasses
    · exact absurd h.2 hr.reported
  | .unary op operand mark, h => by
    rw [Expr.check, Checked.reports_bind, List.append_eq_nil_iff] at h
    obtain ⟨htype, htyped⟩ := operand.hasType_of_reports_nil ht h.1
    rw [Expr.check, Checked.value_bind]
    rcases Typing.unary_spec op (operand.check t).value
        (mark.hull (operand.check t).value.span) with
      ⟨ty, applies, heq⟩ | ⟨herr, -⟩ | ⟨-, hr⟩
    · rw [heq]
      exact ⟨.unary htype applies, .unary _ htyped applies⟩
    · exact absurd herr (htyped.ne_error ht)
    · exact absurd h.2 hr.reported
  | .binary op left right, h => by
    rw [Expr.check, Checked.reports_bind, Checked.reports_bind, List.append_eq_nil_iff,
      List.append_eq_nil_iff] at h
    obtain ⟨hltype, hltyped⟩ := left.hasType_of_reports_nil ht h.1
    obtain ⟨hrtype, hrtyped⟩ := right.hasType_of_reports_nil ht h.2.1
    rw [Expr.check, Checked.value_bind, Checked.value_bind]
    rcases Typing.binary_spec op (left.check t).value (right.check t).value with
      ⟨ty, applies, heq⟩ | ⟨herr, -⟩ | ⟨-, hr⟩
    · rw [heq]
      exact ⟨.binary hltype hrtype applies, .binary _ hltyped hrtyped applies⟩
    · rcases herr with herr | herr
      · exact absurd herr (hltyped.ne_error ht)
      · exact absurd herr (hrtyped.ne_error ht)
    · exact absurd h.2.2 hr.reported
  | .paren inner span, h => by
    rw [Expr.check, Checked.reports_bind, List.append_eq_nil_iff] at h
    obtain ⟨htype, htyped⟩ := inner.hasType_of_reports_nil ht h.1
    rw [Expr.check, Checked.value_bind]
    exact ⟨.paren htype, htyped.withSpan span⟩

/-- Expressions that are checked without a report have the types of their trees. -/
theorem Expr.hasTypes_of_reports_nil (ht : t.Sound) : ∀ (es : List Expr),
    (Expr.checkAll t es).reports = [] →
      Expr.HasTypes t es ((Expr.checkAll t es).value.map (·.ty)) ∧
        ∀ n ∈ (Expr.checkAll t es).value, n.IsTyped t
  | [], _ => ⟨.nil, by simp [Expr.checkAll]⟩
  | e :: rest, h => by
    rw [Expr.checkAll, Checked.reports_bind, Checked.reports_bind, List.append_eq_nil_iff,
      List.append_eq_nil_iff] at h
    obtain ⟨htype, htyped⟩ := e.hasType_of_reports_nil ht h.1
    obtain ⟨htypes, htypeds⟩ := Expr.hasTypes_of_reports_nil ht rest h.2.1
    refine ⟨.cons htype htypes, fun n hn => ?_⟩
    rcases List.mem_cons.1 hn with heq | hn
    · rw [heq]
      exact htyped
    · exact htypeds n hn

end

/-! ## The shape of the tree -/

mutual

theorem Expr.Mirrors.throughout : ∀ {e : Expr} {n : Node}, e.Mirrors t n →
    n.Throughout (·.isError = false)
  | _, _, .int _ | _, _, .char | _, _, .string | _, _, .var _ => Node.throughout_of_leaf rfl rfl
  | _, _, .element _ same => by
    have hindex := same.throughout
    exact Node.throughout_of_child rfl rfl hindex
  | _, _, .call _ same => by
    have hargs := same.throughout
    exact Node.throughout_of_part rfl rfl (Node.throughout_argumentList (fun _ _ _ => rfl) hargs)
  | .unary op _ _, _, .unary same => by
    have hoperand := same.throughout
    exact Node.throughout_of_child (by cases op <;> rfl) rfl hoperand
  | .binary op _ _, _, .binary left_same right_same => by
    have hleft := left_same.throughout
    have hright := right_same.throughout
    exact Node.throughout_of_children (by cases op <;> rfl) rfl hleft hright
  | _, _, .paren same => by
    have hinner := Node.throughout_iff.1 same.throughout
    exact Node.throughout_iff.2 hinner

theorem Expr.MirrorsAll.throughout : ∀ {es : List Expr} {ns : List Node},
    Expr.MirrorsAll t es ns → ∀ n ∈ ns, n.Throughout (·.isError = false)
  | _, _, .nil => by simp
  | _, _, .cons head tail => by
    have hhead := head.throughout
    have htail := tail.throughout
    intro n hn
    rcases List.mem_cons.1 hn with heq | hn
    · rw [heq]
      exact hhead
    · exact htail n hn

end

/-- **The checks accept exactly the expressions that have a type.** Under the symbols of any run of
items, the checks of an expression report nothing just where the rules give it a type; its tree then
has that type, the shape of the expression, and no part that stands for an error. -/
theorem Expr.check_exact (items : List Item) (e : Expr) :
    let t := (Env.empty.after items).table
    ((e.check t).reports = [] ↔ ∃ ty, e.HasType t ty) ∧
      ∀ ty, e.HasType t ty → (e.check t).value.ty = ty ∧ e.Mirrors t (e.check t).value ∧
        (e.check t).value.Throughout (·.isError = false) := by
  intro t
  have ht : t.Sound := Env.sound_after items
  refine ⟨⟨fun h => ?_, ?_⟩, fun ty h => ?_⟩
  · exact ⟨_, (e.hasType_of_reports_nil ht h).1⟩
  · rintro ⟨ty, h⟩
    exact (h.check ht).1
  · obtain ⟨-, hty, hmirrors⟩ := h.check ht
    exact ⟨hty, hmirrors, hmirrors.throughout⟩

/-- `a[1 + 'b']` behind `int a[3];`. -/
theorem Expr.check_exact_sample :
    let t := (Env.empty.after [.spec .int, .array "a" "3" ⟨6, 1⟩ ⟨4, 4⟩]).table
    let e := Expr.element "a" (.binary .add (.int "1" ⟨12, 1⟩) (.char 98 ⟨16, 3⟩)) ⟨10, 10⟩
    ∃ ty, e.HasType t ty ∧ (e.check t).value.ty = ty ∧ e.Mirrors t (e.check t).value ∧
      (e.check t).value.Throughout (·.isError = false) := by
  intro t e
  have hclean : (e.check t).reports = [] := List.eq_nil_of_length_eq_zero (by decide +kernel)
  obtain ⟨ty, htyped⟩ := (check_exact _ e).1.1 hclean
  exact ⟨ty, htyped, (check_exact _ e).2 ty htyped⟩

end Cmm
