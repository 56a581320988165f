import Cmm.Proofs.Tree

/-!
# Lists of trees, followed and taken apart

A list can be followed along its tails, which leaves it as it is, or taken apart in a loop. What it
is made of is the same for both: the last cell, a tail that is no cell and an item that is a list
itself count alike.

* `Node.follow` — what the first steps along a list meet.
* `Node.list_views_agree` — following and taking apart give the same items, and both undo the
  building of a list from its items.
-/

set_option autoImplicit false

namespace Cmm.Node

/-- The items that the first steps along a list meet. A step goes on at the tail that the last one
left. A tree that is no cell is an item itself, and leaves nothing. -/
def follow : Nat → Option Node → List Node
  | 0, _ => []
  | _ + 1, none => []
  | steps + 1, some n => n.head?.getD n :: follow steps n.tail?

/-- A list is the item that the first step meets, and behind it the list that this step leaves. -/
theorem items_eq_step (n : Node) :
    n.items = n.head?.getD n :: (n.tail?.map items).getD [] := by
  obtain ⟨form, ty, span⟩ := n
  cases form with
  | cell head tail => cases tail <;> simp [items, head?, tail?]
  | _ => simp [items, head?, tail?]

theorem follow_eq_take (steps : Nat) (list : Option Node) :
    follow steps list = ((list.map items).getD []).take steps := by
  induction steps generalizing list with
  | zero => simp [follow]
  | succ steps ih =>
      cases list with
      | none => simp [follow]
      | some n =>
          show _ = n.items.take (steps + 1)
          rw [follow, ih, items_eq_step, List.take_succ_cons]

/-- **The views of a list agree.** Any number of steps along a tree of any shape meets the first
items of the tree taken apart, as the trees they are, and as many of them as there are. A list with
an item put in front is this item and what the list was before, if there was one. Some items, put in
front of each other from the last one on, are taken apart into the same items, which may be lists
themselves. -/
theorem list_views_agree :
    (∀ (n : Node) (steps : Nat), follow steps (some n) = n.split.take steps) ∧
    (∀ n : Node, n.items = n.split) ∧
    (∀ (head : Node) (tail : Option Node),
      (cons head tail).items = head :: (tail.map items).getD []) ∧
    ∀ (first : Node) (rest : List Node), ∃ list : Node,
      (first :: rest).foldr (fun head tail => some (cons head tail)) none = some list ∧
        list.split = first :: rest := by
  refine ⟨fun n steps => ?_, fun n => (split_eq_items n).symm, items_cons, fun first rest => ?_⟩
  · rw [split_eq_items]
    exact follow_eq_take steps (some n)
  · refine ⟨cons first (argumentList rest), rfl, ?_⟩
    have hitems : Typing.actuals (argumentList (first :: rest)) = first :: rest :=
      items_argumentList (first :: rest)
    rw [split_eq_items]
    exact hitems

/-- A list may hold a list, and end in a tree that is no cell. -/
example (a b : Node) (span : Span) :
    (cons (cons a (some (cons b none))) (some (error span))).split =
      [cons a (some (cons b none)), error span] := rfl

end Cmm.Node
