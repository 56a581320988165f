import Cmm.Proofs.Tree
import Cmm.Proofs.Typing.Arguments

/-!
# Bodies that end in a return

* `Node.Chain` — the proper lists: cells of type `void` that span what they hold, down to a cell
  without a tail. A chain is determined by its elements (`Chain.unique`).
* `Node.EndsInReturn` — whether the last element is a return.
* `Node.appendReturn_exact` — a body of any shape, taken apart, closed with a return where it ends
  in none, and built anew as a chain. Doing it again changes nothing.
-/

set_option autoImplicit false

namespace Cmm.Node

/-- A chain of cells that ends in a cell, each of them spanning its head and its tail. -/
inductive Chain : Node → List Node → Prop
  | last (head : Node) : Chain ⟨.cell head none, .void, head.span⟩ [head]
  | cell {tail : Node} {rest : List Node} (head : Node) (behind : Chain tail rest) :
      Chain ⟨.cell head (some tail), .void, head.span.hull tail.span⟩ (head :: rest)

theorem Chain.holds {n : Node} {elements : List Node} (chain : n.Chain elements) :
    Node.Holds (some n) elements := by
  induction chain with
  | last head => exact .cell .absent
  | cell head _ ih => exact .cell ih

theorem Chain.ne_nil {n : Node} {elements : List Node} (chain : n.Chain elements) :
    elements ≠ [] := by
  cases chain <;> exact List.cons_ne_nil _ _

/-- Some elements are the elements of one chain only. -/
theorem Chain.unique {n n' : Node} {elements : List Node} (chain : n.Chain elements)
    (chain' : n'.Chain elements) : n = n' := by
  induction chain generalizing n' with
  | last head =>
      cases chain' with
      | last => rfl
      | cell _ behind => exact absurd rfl behind.ne_nil
  | cell head behind ih =>
      cases chain' with
      | last => exact absurd rfl behind.ne_nil
      | cell _ behind' => rw [ih behind']

theorem chain_ofItems (before : List Node) (last : Node) :
    (ofItems before last).Chain (before ++ [last]) := by
  induction before with
  | nil => exact .last last
  | cons head rest ih => exact .cell head ih

/-! ## The return at the end -/

/-- The last element is a return, with or without a value. -/
def EndsInReturn (elements : List Node) : Prop :=
  ∃ before last value, elements = before ++ [last] ∧ last.form = .ret value

theorem isReturn_iff {n : Node} : n.isReturn = true ↔ ∃ value, n.form = .ret value := by
  obtain ⟨form, ty, span⟩ := n
  cases form with
  | unary op | binary op => cases op <;> simp [isReturn, tag, Form.tag, UnOp.tag, BinOp.tag]
  | _ => simp [isReturn, tag, Form.tag]

theorem endsInReturn_concat_iff {before : List Node} {last : Node} :
    EndsInReturn (before ++ [last]) ↔ last.isReturn = true := by
  rw [isReturn_iff]
  constructor
  · rintro ⟨before', last', value, heq, hform⟩
    obtain ⟨-, rfl⟩ := List.concat_inj.1 (by simpa using heq)
    exact ⟨value, hform⟩
  · rintro ⟨value, hform⟩
    exact ⟨before, last, value, rfl, hform⟩

/-- Every body becomes a chain that ends in a return: of its elements alone if they do, and of its
elements with a return behind them if not. -/
theorem chain_appendReturn {body : Option Node} {elements : List Node}
    (holds : Node.Holds body elements) (span : Span) :
    (EndsInReturn elements → (appendReturn body span).Chain elements) ∧
      (¬ EndsInReturn elements →
        (appendReturn body span).Chain (elements ++ [⟨.ret none, .void, span⟩])) := by
  obtain rfl : (body.map items).getD [] = elements := (Typing.holds_actuals body).unique holds
  obtain ⟨before, last, heq, hreturn, hcase⟩ := appendReturn_eq body span
  have hchain := chain_ofItems before last
  rw [heq]
  rcases hcase with hitems | ⟨hitems, hlast, hbefore⟩
  · rw [hitems]
    exact ⟨fun _ => hchain, fun hno => absurd (endsInReturn_concat_iff.2 hreturn) hno⟩
  · rw [hitems]
    refine ⟨fun hends => ?_, fun _ => hlast ▸ hchain⟩
    obtain ⟨before', last', value, rfl, hform⟩ := hends
    have hno : last'.isReturn = false := hbefore last' (by simp)
    rw [isReturn_iff.2 ⟨value, hform⟩] at hno
    cases hno

/-- **A body is normalized by its return.** A body of any shape, or none, has certain elements. It
becomes a chain of exactly these elements if the last of them is a return, and of these elements
and a return without a value, of type `void` and with the given span, if there is no last one or it
is another tree. A body that was treated like this stays the same tree, whatever span comes with
it. -/
theorem appendReturn_exact (body : Option Node) (span : Span) :
    ∃ elements, (∀ ns, Node.Holds body ns ↔ ns = elements) ∧
      (EndsInReturn elements → (appendReturn body span).Chain elements) ∧
      (¬ EndsInReturn elements →
        (appendReturn body span).Chain (elements ++ [⟨.ret none, .void, span⟩])) ∧
      ∀ span', appendReturn (some (appendReturn body span)) span' = appendReturn body span := by
  have holds : Node.Holds body (Typing.actuals body) := Typing.holds_actuals body
  obtain ⟨hends, hopen⟩ := chain_appendReturn holds span
  refine ⟨Typing.actuals body, fun ns => ?_, hends, hopen, fun span' => ?_⟩
  · constructor
    · intro holds'
      exact holds'.unique holds
    · rintro rfl
      exact holds
  · have hagain : ∀ {ns}, (appendReturn body span).Chain ns → EndsInReturn ns →
        appendReturn (some (appendReturn body span)) span' = appendReturn body span := by
      intro ns chain ends
      exact ((chain_appendReturn chain.holds span').1 ends).unique chain
    by_cases ends : EndsInReturn (Typing.actuals body)
    · exact hagain (hends ends) ends
    · exact hagain (hopen ends) (endsInReturn_concat_iff.2 rfl)

end Cmm.Node
