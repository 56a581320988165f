import Cmm.Proofs.Nesting.Trees
import Cmm.Proofs.Typing.Checks

/-!
# Where checked trees stand

* `Typing.Covers` — a construct comes out as a node that covers its place, over its parts or, as an
  error, over nothing. One lemma per construct; `Covers.laid_behind` says where it then stands.
* `Typing.laid_binary`, `Typing.laid_assign`, `Typing.laid_unary` — the constructs whose place
  depends on their parts, or that are absorbed by one of them.
-/

set_option autoImplicit false

namespace Cmm.Typing

open Node (Laid)

variable {t : Table} {x : Checked Node} {span : Span} {parts : List Node} {lo mid hi : Nat}

/-- A construct comes out as a node that covers a place, over its parts or over nothing. -/
structure Covers (x : Checked Node) (span : Span) (parts : List Node) : Prop where
  span : x.value.span = span
  children : x.value.children = parts ∨ x.value.children = []

namespace Covers

/-- A construct stands at its place if its parts stand inside it. -/
theorem laid (h : Covers x span parts) (hparts : Laid span.offset span.stop parts)
    (nonempty : span.offset < span.stop) (hlo : lo ≤ span.offset) (hhi : span.stop ≤ hi) :
    Laid lo hi [x.value] := by
  obtain ⟨rfl, hchildren⟩ := h
  refine Node.laid_singleton.2 ⟨Laid.parent ?_ nonempty, hlo, hhi⟩
  rcases hchildren with heq | heq
  · rw [heq]
    exact hparts
  · rw [heq]
    exact Node.laid_nil hparts.le

/-- A construct reaches from its first token to its last one if its parts stand behind the first. -/
theorem laid_behind (h : Covers x span parts) (hoffset : span.offset = lo) (hstop : span.stop = hi)
    (hparts : Laid mid hi parts) (hbehind : lo < mid) : Laid lo hi [x.value] := by
  have hend := hparts.le
  have hinside : Laid span.offset span.stop parts := by
    rw [hoffset, hstop]
    exact hparts.mono (Nat.le_of_lt hbehind) (Nat.le_refl _)
  exact h.laid hinside (by omega) (by omega) (by omega)

theorem of_eq {form : Form Node} {ty : Ty} (h : x = pure ⟨form, ty, span⟩)
    (children : form.children = parts) : Covers x span parts := by
  subst h
  exact ⟨rfl, .inl children⟩

theorem of_error (h : x = pure (.error span)) : Covers x span parts := by
  subst h
  exact ⟨rfl, .inr rfl⟩

theorem of_refused (h : Refused x span) : Covers x span parts := by
  constructor
  · rw [h.value]
    rfl
  · rw [h.value]
    exact .inr rfl

end Covers

/-! ## Names -/

theorem covers_var (ht : t.Sound) (name : String) (span : Span) :
    Covers (var t name span) span [] := by
  rcases var_spec ht name span with ⟨h, s, -, heq⟩ | ⟨-, hrefused⟩
  · exact .of_eq heq rfl
  · exact .of_refused hrefused

theorem covers_element (ht : t.Sound) (name : String) (index : Node) (span : Span) :
    Covers (element t name index span) span [index] := by
  rcases element_spec ht name index span with ⟨h, s, scalar, -, -, -, heq⟩ | ⟨-, hrefused⟩
  · exact .of_eq heq rfl
  · exact .of_refused hrefused

theorem covers_call (ht : t.Sound) (name : String) (args : Option Node) (span : Span) :
    Covers (call t name args span) span args.toList := by
  rcases call_spec ht name args span with ⟨h, s, sig, -, -, -, -, heq⟩ | ⟨-, hrefused⟩
  · exact .of_eq heq rfl
  · exact .of_refused hrefused

theorem covers_callStatement (ht : t.Sound) (name : String) (args : Option Node) (span : Span) :
    Covers (callStatement t name args span) span args.toList := by
  rcases callStatement_spec ht name args span with ⟨h, s, sig, -, -, -, -, -, heq⟩ | hrefused
  · exact .of_eq heq rfl
  · exact .of_refused hrefused

/-! ## Operators -/

theorem covers_unary (op : UnOp) (operand : Node) (span : Span) :
    Covers (unary op operand span) span [operand] := by
  rcases unary_spec op operand span with ⟨ty, -, heq⟩ | ⟨-, heq⟩ | ⟨-, hrefused⟩
  · exact .of_eq heq rfl
  · exact .of_error heq
  · exact .of_refused hrefused

theorem covers_binary (op : BinOp) (left right : Node) :
    Covers (binary op left right) (left.span.hull right.span) [left, right] := by
  rcases binary_spec op left right with ⟨ty, -, heq⟩ | ⟨-, heq⟩ | ⟨-, hrefused⟩
  · exact .of_eq heq rfl
  · exact .of_error heq
  · exact .of_refused hrefused

/-- An operation with its operand behind the operator. -/
theorem laid_unary {mark : Span} {operand : Node} (op : UnOp) (hlo : lo ≤ mark.offset)
    (nonempty : mark.offset < mark.stop) (h : Laid mark.stop hi [operand]) :
    Laid lo hi [(unary op operand (mark.hull operand.span)).value] := by
  obtain ⟨hoperand, hbehind, hstop⟩ := Node.laid_singleton.1 h
  have hupTo := Span.upTo_of_stop_le hbehind
  have hoffset := hupTo.offset_hull
  have hend := hupTo.stop_hull
  have := hupTo.stop
  refine (covers_unary op operand _).laid ?_ (by omega) (by omega) (by omega)
  exact Node.laid_singleton.2 ⟨hoperand, by omega, by omega⟩

/-- An operation covers its operands. -/
theorem laid_binary {left right : Node} (op : BinOp) (hleft : Laid lo mid [left])
    (hright : Laid mid hi [right]) : Laid lo hi [(binary op left right).value] := by
  obtain ⟨hl, hlo, hlmid⟩ := Node.laid_singleton.1 hleft
  obtain ⟨hr, hrmid, hhi⟩ := Node.laid_singleton.1 hright
  have hbehind : left.span.stop ≤ right.span.offset := Nat.le_trans hlmid hrmid
  have hupTo := Span.upTo_of_stop_le hbehind
  have hoffset := hupTo.offset_hull
  have hend := hupTo.stop_hull
  have := hl.here.nonempty
  have := hupTo.stop
  refine (covers_binary op left right).laid ?_ (by omega) (by omega) (by omega)
  exact Node.laid_cons.2 ⟨hl, by omega, Node.laid_singleton.2 ⟨hr, hbehind, by omega⟩⟩

/-! ## Statements -/

/-- An assignment covers both sides, and a side that absorbs it stands there too. -/
theorem laid_assign {target value : Node} (hoffset : span.offset = lo) (hstop : span.stop = hi)
    (hparts : Laid lo hi [target, value]) : Laid lo hi [(assign target value span).value] := by
  subst hoffset hstop
  obtain ⟨htarget, hfirst, hrest⟩ := Node.laid_cons.1 hparts
  obtain ⟨hvalue, hbehind, hend⟩ := Node.laid_singleton.1 hrest
  have hne := htarget.here.nonempty
  have hle := hrest.le
  have hcovered (hcovers : Covers (assign target value span) span [target, value]) :
      Laid span.offset span.stop [(assign target value span).value] :=
    hcovers.laid hparts (by omega) (Nat.le_refl _) (Nat.le_refl _)
  rcases assign_spec target value span with ⟨-, -, heq⟩ | ⟨-, heq⟩ | ⟨-, heq⟩ | hrefused
  · exact hcovered (.of_eq heq rfl)
  · rw [heq, Checked.value_pure]
    exact Node.laid_singleton.2 ⟨htarget, hfirst, hle⟩
  · rw [heq, Checked.value_pure]
    exact Node.laid_singleton.2 ⟨hvalue, by omega, hend⟩
  · exact hcovered (.of_refused hrefused)

theorem covers_branch (test : Node) (thenPart elsePart : Option Node) (span : Span) :
    Covers (branch test thenPart elsePart span) span
      (test :: (thenPart.toList ++ elsePart.toList)) := ⟨rfl, .inl rfl⟩

theorem covers_whileLoop (test : Node) (body : Option Node) (span : Span) :
    Covers (whileLoop test body span) span (test :: body.toList) := ⟨rfl, .inl rfl⟩

theorem covers_forLoop (start test update body : Option Node) (span : Span) :
    Covers (forLoop start test update body span) span
      (start.toList ++ test.toList ++ update.toList ++ body.toList) := by
  have hvalue := (forLoop_spec start test update body span).1
  constructor
  · rw [hvalue]
  · rw [hvalue]
    exact .inl rfl

theorem covers_ret (result : TypeSpec) (value : Option Node) (span : Span) :
    Covers (ret result value span) span value.toList := by
  rcases ret_spec result value span with ⟨-, rfl, heq⟩ | ⟨v, -, rfl, -, heq⟩ | hrefused
  · exact .of_eq heq rfl
  · exact .of_eq heq rfl
  · exact .of_refused hrefused

end Cmm.Typing
