import Cmm.Node
import Cmm.Table

/-!
# Counting nodes

Reference model of `NodeStats` with its `process`, `total` and `render`, and of
`FunctionStats.count`.

* `Counts` — a number per tag.
* `Census` — the counts of each function that was entered, and of all of them together.
* `Census.text` — the functions in the order they were entered, each with its tags that occur.
-/

set_option autoImplicit false

namespace Cmm

/-- A number per tag. -/
structure Counts where
  cells : Vector Nat 27
  deriving DecidableEq

namespace Counts

/-- The cell of a tag: its place in `Tag.all`. -/
def cell : Tag → Fin 27
  | .error => 0
  | .int => 1
  | .char => 2
  | .string => 3
  | .var => 4
  | .element => 5
  | .plus => 6
  | .unaryMinus => 7
  | .binaryMinus => 8
  | .mult => 9
  | .div => 10
  | .equals => 11
  | .neq => 12
  | .leq => 13
  | .lt => 14
  | .geq => 15
  | .gt => 16
  | .and => 17
  | .or => 18
  | .not => 19
  | .call => 20
  | .assign => 21
  | .ret => 22
  | .forLoop => 23
  | .whileLoop => 24
  | .branch => 25
  | .cell => 26

/-- Zero for every tag. -/
def zero : Counts := ⟨Vector.replicate 27 0⟩

/-- The number of a tag. -/
def get (c : Counts) (tag : Tag) : Nat := c.cells[cell tag]

/-- Adds to the number of a tag. -/
def add (c : Counts) (tag : Tag) (n : Nat) : Counts := ⟨c.cells.set (cell tag) (c.get tag + n)⟩

/-- Adds the numbers of other counts. -/
def plus (c other : Counts) : Counts :=
  Tag.all.foldl (fun sum tag => sum.add tag (other.get tag)) c

/-- The tags that occur, with their numbers. -/
def entries (c : Counts) : List (Tag × Nat) :=
  (Tag.all.map fun tag => (tag, c.get tag)).filter (·.2 ≠ 0)

/-- The counts of a tree. -/
def ofNode (n : Node) : Counts := n.fold (fun c n => c.add n.tag 1) zero

end Counts

/-- The counts of one function. -/
structure FunctionCounts where
  name : String
  counts : Counts
  deriving DecidableEq

/-- The counts of several functions and of all of them together. -/
structure Census where
  functions : List FunctionCounts
  totals : Counts
  deriving DecidableEq

namespace Census

/-- No function was entered. -/
def empty : Census := ⟨[], .zero⟩

/-- Enters the tree of a function. -/
def enter (census : Census) (table : Table) (callee : Handle) (body : Node) : Census :=
  let name := ((table.get? callee).map (·.name)).getD ""
  let counts := Counts.ofNode body
  ⟨census.functions ++ [⟨name, counts⟩], census.totals.plus counts⟩

/-- The number of a tag over all functions. -/
def total (census : Census) (tag : Tag) : Nat := census.totals.get tag

/-- The lines of one function. -/
def functionText (f : FunctionCounts) : String :=
  "@@FUN: " ++ f.name ++ "\n" ++
    String.join (f.counts.entries.map fun (tag, n) => tag.name ++ ": " ++ toString n ++ "\n")

/-- The lines of every function. -/
def text (census : Census) : String := String.join (census.functions.map functionText)

end Census

end Cmm
