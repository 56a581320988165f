import Cmm.Node

/-!
# Lists of trees

Reference model of `make_list`, `append_return`, `Node.iter_list` and `Node.into_list`.

A list is a chain of cells, each with its item and the rest of the chain. A tree that is no cell
counts as a list of one.

* `Node.cons` — an item in front of a list; the cell spans both.
* `Node.items` — the items read off the chain; `Node.split` — the same list taken apart in a loop.
* `Node.appendReturn` — a function body as a chain that ends in a return.
-/

set_option autoImplicit false

namespace Cmm.Node

/-- Puts an item in front of a list. -/
def cons (head : Node) (tail : Option Node) : Node :=
  ⟨.cell head tail, .void, (tail.map fun t => head.span.hull t.span).getD head.span⟩

/-- The items of a list, first to last. -/
def items : Node → List Node
  | ⟨.cell head none, _, _⟩ => [head]
  | ⟨.cell head (some tail), _, _⟩ => head :: tail.items
  | n => [n]

/-- Takes a list apart; `taken` holds the items before it. -/
def splitFrom (taken : Array Node) : Node → Array Node
  | ⟨.cell head none, _, _⟩ => taken.push head
  | ⟨.cell head (some tail), _, _⟩ => splitFrom (taken.push head) tail
  | n => taken.push n

/-- A list taken apart into its items. -/
def split (n : Node) : List Node := (splitFrom #[] n).toList

/-- The list of some items and a last one. -/
def ofItems (before : List Node) (last : Node) : Node :=
  before.foldr (fun head tail => cons head (some tail)) (cons last none)

/-- A return without a value. -/
def bareReturn (span : Span) : Node := ⟨.ret none, .void, span⟩

/-- A function body that ends in a return: one without value is added where the last item is none.
A missing body has no items. -/
def appendReturn (body : Option Node) (span : Span) : Node :=
  let items := (body.map split).getD []
  match items.getLast? with
  | some last =>
    if last.isReturn then ofItems items.dropLast last else ofItems items (bareReturn span)
  | none => ofItems [] (bareReturn span)

end Cmm.Node
