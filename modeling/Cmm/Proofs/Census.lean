import Mathlib.Algebra.BigOperators.Group.List.Basic
import Mathlib.Algebra.Ring.Nat
import Mathlib.Data.List.Forall2
import Cmm.Compile

/-!
# Every node is counted once

* `Node.preorder` — a tree and all below it, parents first; `Node.numberOf` — how many of them have
  a property. Both go down the tree child by child.
* `Node.fold_eq_foldl` — the traversal with pending trees visits the preorder.
* `Node.children_eq_parts` — the children are what the accessors of the parts give.
* `Counts.get_ofNode`, `Counts.get_plus` — what counts of a tree and sums of counts hold per tag.
* `traversal_counts_once` — these together, for any functions that are entered into a census.
-/

set_option autoImplicit false

namespace Cmm

namespace Node

/-- A child is smaller than its parent. -/
theorem sizeOf_lt_of_mem_children {c n : Node} (h : c ∈ n.children) : sizeOf c < sizeOf n := by
  have hmem : ∀ {ns : List Node}, c ∈ ns → sizeOf c ≤ totalSize ns := by
    intro ns hc
    induction ns with
    | nil => cases hc
    | cons m rest ih =>
        rw [totalSize]
        rcases List.mem_cons.1 hc with rfl | hc
        · omega
        · have := ih hc
          omega
  exact Nat.lt_of_le_of_lt (hmem h) n.totalSize_children

/-- A tree and all below it: the tree itself, then its children's, one child after the other. -/
def preorder (n : Node) : List Node := n :: n.children.attach.flatMap fun c => preorder c.1
termination_by sizeOf n
decreasing_by exact sizeOf_lt_of_mem_children c.2

theorem preorder_eq (n : Node) : n.preorder = n :: n.children.flatMap preorder := by
  rw [preorder, List.flatMap_subtype (fun _ _ => rfl), List.unattach_attach]

/-- The number of nodes of a tree that have a property. -/
def numberOf (p : Node → Bool) (n : Node) : Nat :=
  (if p n then 1 else 0) + (n.children.attach.map fun c => numberOf p c.1).sum
termination_by sizeOf n
decreasing_by exact sizeOf_lt_of_mem_children c.2

theorem numberOf_eq (p : Node → Bool) (n : Node) :
    n.numberOf p = (if p n then 1 else 0) + (n.children.map (numberOf p)).sum := by
  rw [numberOf, List.attach_map_val]

/-- The trees that the accessors of the parts give, in the order in which they name them. -/
def parts (n : Node) : List Node :=
  [n.left?, n.right?, n.subtree?, n.clause? 0, n.clause? 1, n.clause? 2, n.clause? 3, n.head?,
    n.tail?].reduceOption

/-- A property holds of a tree if it holds of one whose children all have it. -/
theorem byChildren {motive : Node → Prop}
    (node : ∀ n, (∀ c ∈ n.children, motive c) → motive n) (n : Node) : motive n := by
  generalize hsize : sizeOf n = size
  induction size using Nat.strongRecOn generalizing n with
  | ind size ih =>
      subst hsize
      exact node n fun c hc => ih _ (sizeOf_lt_of_mem_children hc) c rfl

/-- The pending trees are visited in preorder, one after the other. -/
theorem foldFrom_eq_foldl {β : Type} (visit : β → Node → β) (b : β) (pending : List Node) :
    foldFrom visit b pending = (pending.flatMap preorder).foldl visit b := by
  fun_induction foldFrom visit b pending with
  | case1 b => rfl
  | case2 b n pending ih =>
      rw [ih, List.flatMap_append, List.flatMap_cons, preorder_eq, List.cons_append,
        List.foldl_cons]

theorem fold_eq_foldl {β : Type} (visit : β → Node → β) (start : β) (n : Node) :
    n.fold visit start = n.preorder.foldl visit start := by
  rw [fold, foldFrom_eq_foldl, List.flatMap_singleton]

/-- The preorder has every node once. -/
theorem countP_preorder (p : Node → Bool) (n : Node) : n.preorder.countP p = n.numberOf p := by
  induction n using byChildren with
  | node n ih =>
      have hchildren : (n.children.map (List.countP p ∘ preorder)).sum =
          (n.children.map (numberOf p)).sum :=
        congrArg List.sum (List.map_congr_left ih)
      rw [preorder_eq, numberOf_eq, List.countP_cons, List.countP_flatMap, hchildren, Nat.add_comm]

theorem length_preorder (n : Node) : n.preorder.length = n.numberOf fun _ => true := by
  rw [← countP_preorder, List.countP_true]

theorem children_eq_parts (n : Node) : n.children = n.parts := by
  obtain ⟨form, ty, span⟩ := n
  cases form with
  | error | int | char | string | var | element | unary | binary | assign => rfl
  | call _ part | ret part => cases part <;> rfl
  | whileLoop _ part | cell _ part => cases part <;> rfl
  | branch _ thenPart elsePart => cases thenPart <;> cases elsePart <;> rfl
  | forLoop start test update body =>
      cases start <;> cases test <;> cases update <;> cases body <;> rfl

/-- A statement has four clauses at most. -/
theorem clause?_add_four (n : Node) (position : Nat) : n.clause? (position + 4) = none := by
  obtain ⟨form, ty, span⟩ := n
  cases form <;> rfl

end Node

/-! ## Counts -/

namespace Tag

theorem nodup_all : all.Nodup := by decide

theorem mem_all (tag : Tag) : tag ∈ all := by
  cases tag <;> decide

/-- Over all tags, a number that belongs to one of them comes up once. -/
theorem sum_map_ite (tag : Tag) : (all.map fun t => if tag = t then 1 else 0).sum = 1 := by
  cases tag <;> rfl

end Tag

namespace Counts

/-- Every tag has a cell of its own: its place among all tags. -/
theorem getElem?_cell (tag : Tag) : Tag.all[(cell tag).val]? = some tag := by
  cases tag <;> rfl

theorem cell_injective {t tag : Tag} (h : cell t = cell tag) : t = tag := by
  have := getElem?_cell t
  rw [h, getElem?_cell] at this
  exact (Option.some.inj this).symm

@[simp] theorem get_zero (tag : Tag) : zero.get tag = 0 := by
  simp [get, zero]

@[simp] theorem get_add (c : Counts) (tag : Tag) (n : Nat) (t : Tag) :
    (c.add tag n).get t = c.get t + if tag = t then n else 0 := by
  by_cases h : tag = t
  · subst h
    simp [get, add]
  · have hcell : (cell tag).val ≠ (cell t).val := fun heq => h (cell_injective (Fin.ext heq))
    simp [get, add, h, hcell]

/-- Visited nodes are counted by their tags. -/
theorem get_foldl_add (nodes : List Node) (c : Counts) (tag : Tag) :
    (nodes.foldl (fun c n => c.add n.tag 1) c).get tag =
      c.get tag + nodes.countP fun n => n.tag = tag := by
  induction nodes generalizing c with
  | nil => rfl
  | cons n rest ih =>
      rw [List.foldl_cons, ih, get_add, List.countP_cons]
      simp only [decide_eq_true_eq]
      omega

theorem get_ofNode (n : Node) (tag : Tag) :
    (ofNode n).get tag = n.numberOf fun m => m.tag = tag := by
  rw [ofNode, Node.fold_eq_foldl, get_foldl_add, get_zero, Nat.zero_add, Node.countP_preorder]

/-- Numbers added for some tags, none of them twice, are found at these tags. -/
theorem get_foldl_plus {tags : List Tag} (distinct : tags.Nodup) (c other : Counts) (tag : Tag) :
    (tags.foldl (fun sum t => sum.add t (other.get t)) c).get tag =
      c.get tag + if tag ∈ tags then other.get tag else 0 := by
  induction tags generalizing c with
  | nil => simp
  | cons t rest ih =>
      obtain ⟨hnot, hrest⟩ := List.nodup_cons.1 distinct
      rw [List.foldl_cons, ih hrest, get_add]
      by_cases h : t = tag
      · subst h
        simp [hnot]
      · simp [h, Ne.symm h]

theorem get_plus (c other : Counts) (tag : Tag) :
    (c.plus other).get tag = c.get tag + other.get tag := by
  rw [plus, get_foldl_plus Tag.nodup_all, if_pos (Tag.mem_all tag)]

/-- The counts of a tree add up to the number of its nodes. -/
theorem sum_get_ofNode (n : Node) :
    (Tag.all.map (ofNode n).get).sum = n.numberOf fun _ => true := by
  have hsum : ∀ nodes : List Node,
      (Tag.all.map fun tag => nodes.countP fun m => m.tag = tag).sum = nodes.length := by
    intro nodes
    induction nodes with
    | nil => simp
    | cons m rest ih =>
        simp only [List.countP_cons, decide_eq_true_eq]
        rw [List.sum_map_add, ih, Tag.sum_map_ite, List.length_cons]
  have hget : (ofNode n).get = fun tag => n.preorder.countP fun m => m.tag = tag := by
    funext tag
    rw [get_ofNode, Node.countP_preorder]
  rw [hget, hsum, Node.length_preorder]

end Counts

namespace Census

/-- A census holds the counts of what was entered, in that order, and their totals. -/
structure Holds (census : Census) (trees : List Node) : Prop where
  functions : census.functions.map (·.counts) = trees.map Counts.ofNode
  totals : ∀ tag, census.total tag = (census.functions.map fun f => f.counts.get tag).sum

theorem holds_empty : empty.Holds [] :=
  ⟨rfl, fun tag => Counts.get_zero tag⟩

theorem Holds.enter {census : Census} {trees : List Node} (h : census.Holds trees) (table : Table)
    (callee : Handle) (body : Node) : (census.enter table callee body).Holds (trees ++ [body]) := by
  constructor
  · simp [Census.enter, h.functions]
  · intro tag
    have htotal := h.totals tag
    unfold total at htotal
    simp [Census.enter, total, Counts.get_plus, htotal]

theorem holds_ofDefinitions (definitions : List Definition) :
    (ofDefinitions definitions).Holds (definitions.map (·.body)) := by
  suffices h : ∀ {census trees}, Holds census trees →
      (definitions.foldl (fun census d => census.enter d.table d.callee d.body) census).Holds
        (trees ++ definitions.map (·.body)) from h holds_empty
  induction definitions with
  | nil => simp
  | cons d rest ih =>
      intro census trees h
      simpa using ih (h.enter d.table d.callee d.body)

end Census

/-- **Every node of a tree is visited and counted once.** A traversal visits the preorder of the
tree: the tree, then the preorders of its children, and these are the parts that its accessors
give. A census of any functions holds for each of them and for each tag the number of nodes with
that tag, the counts of a function add up to the size of its tree, and the total of a tag is the sum
over the functions. -/
theorem traversal_counts_once :
    (∀ n : Node,
      (∀ {β : Type} (visit : β → Node → β) (start : β),
        n.fold visit start = n.preorder.foldl visit start) ∧
      n.preorder = n :: n.children.flatMap Node.preorder ∧
      n.children = n.parts ∧ ∀ position, n.clause? (position + 4) = none) ∧
    ∀ definitions : List Definition,
      List.Forall₂ (fun (f : FunctionCounts) (d : Definition) =>
        (∀ tag, f.counts.get tag = d.body.numberOf fun m => m.tag = tag) ∧
          (Tag.all.map f.counts.get).sum = d.body.numberOf fun _ => true)
        (Census.ofDefinitions definitions).functions definitions ∧
      ∀ tag, (Census.ofDefinitions definitions).total tag =
        ((Census.ofDefinitions definitions).functions.map fun f => f.counts.get tag).sum := by
  constructor
  · intro n
    exact ⟨fun visit start => n.fold_eq_foldl visit start, n.preorder_eq, n.children_eq_parts,
      n.clause?_add_four⟩
  · intro definitions
    obtain ⟨hfunctions, htotals⟩ := Census.holds_ofDefinitions definitions
    refine ⟨?_, htotals⟩
    rw [List.map_map, ← List.forall₂_eq_eq_eq, List.forall₂_map_left_iff,
      List.forall₂_map_right_iff] at hfunctions
    refine hfunctions.imp fun f d hcounts => ?_
    rw [hcounts]
    exact ⟨Counts.get_ofNode d.body, Counts.sum_get_ofNode d.body⟩

end Cmm
