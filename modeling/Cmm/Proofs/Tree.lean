import Cmm.Phrase.Check

/-!
# The parts of a tree

* `Node.Within` — one tree is a part of another, or is the other; `Node.Throughout` — a property of
  all parts. `throughout_iff` peels one node off.
* `Node.split_eq_items` — a list taken apart in a loop has the items that are read off it.
* `throughout_items`, `throughout_argumentList`, `throughout_appendReturn` — lists that are taken
  apart and built anew have the parts of their items, new cells and a new return.
* `items_argumentList` — the arguments of a call are the items of its chain.
-/

set_option autoImplicit false

namespace Cmm.Node

variable {P : Node → Prop}

/-- One tree is a part of another, or is the other. -/
inductive Within : Node → Node → Prop
  | self (n : Node) : Within n n
  | child {m c n : Node} (is_child : c ∈ n.children) (within : Within m c) : Within m n

/-- Every part of a tree has a property. -/
def Throughout (P : Node → Prop) (n : Node) : Prop := ∀ m, m.Within n → P m

theorem throughout_iff {n : Node} :
    n.Throughout P ↔ P n ∧ ∀ c ∈ n.children, c.Throughout P := by
  constructor
  · intro h
    exact ⟨h n (.self n), fun c hc m hm => h m (.child hc hm)⟩
  · rintro ⟨hn, hc⟩ m hm
    cases hm with
    | self => exact hn
    | child hmem hw => exact hc _ hmem m hw

theorem Throughout.here {n : Node} (h : n.Throughout P) : P n := h n (.self n)

theorem Throughout.child {n c : Node} (h : n.Throughout P) (hc : c ∈ n.children) :
    c.Throughout P := (throughout_iff.1 h).2 c hc

theorem Throughout.imp {Q : Node → Prop} {n : Node} (h : n.Throughout P)
    (hPQ : ∀ m, P m → Q m) : n.Throughout Q := fun m hm => hPQ m (h m hm)

/-- A tree without children has only itself as a part. -/
theorem throughout_of_leaf {n : Node} (hn : P n) (leaf : n.children = []) : n.Throughout P :=
  throughout_iff.2 ⟨hn, by rw [leaf]; simp⟩

theorem throughout_of_child {n c : Node} (hn : P n) (only : n.children = [c])
    (hc : c.Throughout P) : n.Throughout P := by
  refine throughout_iff.2 ⟨hn, fun m hm => ?_⟩
  rw [only] at hm
  rw [List.mem_singleton.1 hm]
  exact hc

theorem throughout_of_children {n c d : Node} (hn : P n) (both : n.children = [c, d])
    (hc : c.Throughout P) (hd : d.Throughout P) : n.Throughout P := by
  refine throughout_iff.2 ⟨hn, fun m hm => ?_⟩
  rw [both] at hm
  rcases List.mem_cons.1 hm with rfl | hm
  · exact hc
  · rw [List.mem_singleton.1 hm]
    exact hd

theorem throughout_of_part {n : Node} {part : Option Node} (hn : P n)
    (only : n.children = part.toList) (hpart : ∀ c ∈ part, c.Throughout P) : n.Throughout P := by
  refine throughout_iff.2 ⟨hn, fun m hm => ?_⟩
  rw [only] at hm
  exact hpart m (Option.mem_toList.1 hm)

theorem throughout_error (herr : ∀ span, P (error span)) (span : Span) :
    (error span).Throughout P := throughout_of_leaf (herr span) rfl

/-! ## Lists -/

theorem splitFrom_eq (taken : Array Node) (n : Node) :
    splitFrom taken n = taken ++ n.items.toArray := by
  fun_induction splitFrom taken n with
  | case1 taken head ty span => simp [items]
  | case2 taken head tail ty span ih => simp [items, ih]
  | case3 taken n hnone hsome =>
      have : n.items = [n] := by
        unfold items
        split
        · exact absurd rfl (hnone _ _ _)
        · exact absurd rfl (hsome _ _ _ _)
        · rfl
      simp [this]

theorem split_eq_items (n : Node) : n.split = n.items := by
  simp [split, splitFrom_eq]

theorem throughout_items {n : Node} (h : n.Throughout P) : ∀ item ∈ n.items, item.Throughout P := by
  fun_induction items n with
  | case1 head ty span =>
      intro item hitem
      rw [List.mem_singleton.1 hitem]
      exact h.child (by simp [children, Form.children])
  | case2 head tail ty span ih =>
      intro item hitem
      rcases List.mem_cons.1 hitem with rfl | hitem
      · exact h.child (by simp [children, Form.children])
      · exact ih (h.child (by simp [children, Form.children])) item hitem
  | case3 n =>
      intro item hitem
      rw [List.mem_singleton.1 hitem]
      exact h

/-- Trees with a property under one cell have it together, if cells do. -/
theorem throughout_cons (hcell : ∀ head tail span, P ⟨.cell head tail, .void, span⟩) {head : Node}
    {tail : Option Node} (hhead : head.Throughout P) (htail : ∀ n ∈ tail, n.Throughout P) :
    (cons head tail).Throughout P := by
  refine throughout_iff.2 ⟨hcell _ _ _, fun c hc => ?_⟩
  simp only [children, Form.children, cons, List.mem_cons, Option.mem_toList] at hc
  rcases hc with rfl | hc
  · exact hhead
  · exact htail c hc

theorem throughout_ofItems (hcell : ∀ head tail span, P ⟨.cell head tail, .void, span⟩)
    {before : List Node} {last : Node} (hbefore : ∀ n ∈ before, n.Throughout P)
    (hlast : last.Throughout P) : (ofItems before last).Throughout P := by
  induction before with
  | nil => exact throughout_cons hcell hlast (by simp)
  | cons n rest ih =>
      refine throughout_cons hcell (hbefore n List.mem_cons_self) ?_
      rintro m ⟨⟩
      exact ih fun k hk => hbefore k (List.mem_cons_of_mem _ hk)

theorem throughout_argumentList (hcell : ∀ head tail span, P ⟨.cell head tail, .void, span⟩)
    {args : List Node} (h : ∀ n ∈ args, n.Throughout P) :
    ∀ n ∈ argumentList args, n.Throughout P := by
  induction args with
  | nil => simp [argumentList]
  | cons arg rest ih =>
      rintro n ⟨⟩
      exact throughout_cons hcell (h arg List.mem_cons_self)
        (ih fun k hk => h k (List.mem_cons_of_mem _ hk))

theorem items_cons (head : Node) (tail : Option Node) :
    (cons head tail).items = head :: (tail.map items).getD [] := by
  cases tail <;> simp [cons, items]

@[simp] theorem items_argumentList (args : List Node) :
    Typing.actuals (argumentList args) = args := by
  induction args with
  | nil => rfl
  | cons arg rest ih =>
      show (cons arg (argumentList rest)).items = arg :: rest
      rw [items_cons]
      exact congrArg (arg :: ·) ih

/-! ## Bodies -/

/-- A body that ends in a return is the list of its items; any other gets a return behind them. -/
theorem appendReturn_eq (body : Option Node) (span : Span) :
    ∃ before last, appendReturn body span = ofItems before last ∧ last.isReturn = true ∧
      ((body.map items).getD [] = before ++ [last] ∨
        (body.map items).getD [] = before ∧ last = bareReturn span ∧
          ∀ n ∈ before.getLast?, n.isReturn = false) := by
  have hitems : (body.map split).getD [] = (body.map items).getD [] := by
    cases body <;> simp [split_eq_items]
  unfold appendReturn
  simp only [hitems]
  generalize (body.map items).getD [] = items
  cases hl : items.getLast? with
  | none =>
      rw [List.getLast?_eq_none_iff] at hl
      subst hl
      exact ⟨[], bareReturn span, rfl, rfl, .inr ⟨rfl, rfl, by simp⟩⟩
  | some last =>
      dsimp only
      cases hr : last.isReturn with
      | true =>
          refine ⟨items.dropLast, last, rfl, hr, .inl ?_⟩
          have hne : items ≠ [] := by
            rintro rfl
            cases hl
          rw [List.getLast?_eq_some_getLast hne, Option.some.injEq] at hl
          rw [← hl, List.dropLast_concat_getLast hne]
      | false =>
          refine ⟨items, bareReturn span, rfl, rfl, .inr ⟨rfl, rfl, ?_⟩⟩
          intro n hn
          rw [hl] at hn
          cases hn
          exact hr

theorem throughout_appendReturn (hcell : ∀ head tail span, P ⟨.cell head tail, .void, span⟩)
    (hret : ∀ span, P (bareReturn span)) {body : Option Node}
    (hbody : ∀ n ∈ body, n.Throughout P) (span : Span) : (appendReturn body span).Throughout P := by
  have hitems : ∀ n ∈ (body.map items).getD [], n.Throughout P := by
    cases body with
    | none => simp
    | some n => exact throughout_items (hbody n rfl)
  obtain ⟨before, last, heq, -, hcase⟩ := appendReturn_eq body span
  rw [heq]
  rcases hcase with hb | ⟨hb, rfl, -⟩
  · rw [hb] at hitems
    exact throughout_ofItems hcell (fun n hn => hitems n (List.mem_append_left _ hn))
      (hitems last (List.mem_append_right _ List.mem_cons_self))
  · rw [hb] at hitems
    exact throughout_ofItems hcell hitems (throughout_of_leaf (hret span) rfl)

end Cmm.Node
