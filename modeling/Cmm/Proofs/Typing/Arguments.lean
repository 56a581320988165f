import Cmm.Proofs.Positions
import Cmm.Proofs.Tree
import Cmm.Proofs.Typing.Rules

/-!
# The arguments of a call, one by one

* `Node.Holds` — the elements of an argument list, read off a chain of cells that may end in a tree
  that is no cell.
* `Typing.Mismatch` — what there is to report on a position. An argument that stands for an error
  fits anywhere, as it was reported before.
* `Typing.Matched`, `Typing.matchArguments_exact` — what is reported of a call: the mismatches of
  its positions in their order, and whether the numbers differ.
-/

set_option autoImplicit false

namespace Cmm

/-- The elements of an argument list are the heads of its cells, and what the chain ends in where
that is no cell. -/
inductive Node.Holds : Option Node → List Node → Prop
  | absent : Holds none []
  | cell {head : Node} {tail : Option Node} {rest : List Node} {ty : Ty} {span : Span}
      (behind : Holds tail rest) : Holds (some ⟨.cell head tail, ty, span⟩) (head :: rest)
  | other {n : Node} (no_cell : ∀ head tail, n.form ≠ .cell head tail) : Holds (some n) [n]

theorem Node.holds_items (n : Node) : Node.Holds (some n) n.items := by
  fun_induction Node.items n with
  | case1 head ty span => exact .cell .absent
  | case2 head tail ty span ih => exact .cell ih
  | case3 n hlast hcell =>
      apply Node.Holds.other
      obtain ⟨form, ty, span⟩ := n
      rintro head tail rfl
      cases tail with
      | none => exact hlast head ty span rfl
      | some tail => exact hcell head tail ty span rfl

/-- No list has two sets of elements. -/
theorem Node.Holds.unique {args : Option Node} {ns ns' : List Node} (h : Node.Holds args ns)
    (h' : Node.Holds args ns') : ns = ns' := by
  induction h generalizing ns' with
  | absent =>
      cases h'
      rfl
  | cell _ ih =>
      cases h' with
      | cell behind => rw [ih behind]
      | other no_cell => exact absurd rfl (no_cell _ _)
  | other no_cell =>
      cases h' with
      | cell => exact absurd rfl (no_cell _ _)
      | other => rfl

namespace Typing

theorem holds_actuals (args : Option Node) : Node.Holds args (actuals args) := by
  cases args with
  | none => exact .absent
  | some n => exact n.holds_items

/-- The report on a parameter and its argument at a position, if there is one. -/
def argumentFault? (name : String) (position : Nat) (formal : Formal) (actual : Node) :
    Option (Report SemanticFault) :=
  if actual.ty.isError || suits formal.ty actual.ty then none
  else some ⟨.argument name position formal.ty actual.ty, actual.span⟩

theorem argumentFaults_eq (name : String) (position : Nat) (formals : List Formal)
    (args : List Node) : argumentFaults name position formals args =
      compareFrom (argumentFault? name) position formals args := by
  induction formals generalizing position args with
  | nil => cases args <;> rfl
  | cons formal formals ih =>
      cases args with
      | nil => rfl
      | cons arg args =>
          rw [argumentFaults, compareFrom, argumentFault?, ih]
          split <;> rfl

/-- An argument at a position, counted from zero, does not suit its parameter. The report counts
from one. -/
def Mismatch (name : String) (formals : List Formal) (args : List Node) (i : Nat)
    (r : Report SemanticFault) : Prop :=
  ∃ formal actual, formals[i]? = some formal ∧ args[i]? = some actual ∧ actual.ty ≠ .error ∧
    ¬ formal.ty.Passes actual.ty ∧
    r = ⟨.argument name (i + 1) formal.ty actual.ty, actual.span⟩

theorem argumentFault?_eq_some_iff {name : String} {position : Nat} {formal : Formal}
    {actual : Node} {r : Report SemanticFault} :
    argumentFault? name position formal actual = some r ↔ actual.ty ≠ .error ∧
      ¬ formal.ty.Passes actual.ty ∧
      r = ⟨.argument name position formal.ty actual.ty, actual.span⟩ := by
  rw [argumentFault?, ← Ty.suits_iff, Ne, ← Ty.isError_iff, eq_comm (a := r)]
  cases actual.ty.isError <;> cases suits formal.ty actual.ty <;> simp

theorem byPosition_argumentFaults (name : String) (formals : List Formal) (args : List Node) :
    ByPosition (Mismatch name formals args) (argumentFaults name 1 formals args) := by
  have hcompare := byPosition_compareFrom (argumentFault? name) 1 formals args
  rw [← argumentFaults_eq] at hcompare
  simp only [argumentFault?_eq_some_iff, Nat.add_comm 1] at hcompare
  exact hcompare

/-- What matching the arguments of a call against the parameters of a symbol comes to. -/
structure Matched (s : Symbol) (span : Span) (args : List Node) (checked : Checked Bool) :
    Prop where
  reports : ∃ mismatches, ByPosition (Mismatch s.name s.formals args) mismatches ∧
    checked.reports = mismatches ++ if args.length = s.formals.length then []
      else [⟨.argumentCount s.name s.formals.length args.length, span⟩]
  value : checked.value = true ↔ checked.reports = []

/-- **The arguments of a call are matched one by one.** An argument list has certain elements. Each
position that has a parameter and an argument is reported once if they do not suit each other, in
the order of the positions, whatever is said of other positions. Behind them it is reported once if
the numbers differ. Nothing else is reported, and the arguments suit where nothing is. -/
theorem matchArguments_exact {t : Table} {callee : Handle} {s : Symbol}
    (found : t.get? callee = some s) (args : Option Node) (span : Span) :
    ∃ elements, (∀ ns, Node.Holds args ns ↔ ns = elements) ∧
      Matched s span elements (matchArguments t callee args span) := by
  refine ⟨actuals args, ?_, ?_⟩
  · intro ns
    constructor
    · intro holds
      exact holds.unique (holds_actuals args)
    · rintro rfl
      exact holds_actuals args
  · have hmatch : matchArguments t callee args span =
        let reports := argumentFaults s.name 1 s.formals (actuals args) ++
          if (actuals args).length = s.formals.length then []
          else [⟨.argumentCount s.name s.formals.length (actuals args).length, span⟩]
        ⟨reports.isEmpty, reports⟩ := by
      rw [matchArguments, found]
      simp only [eq_comm (a := s.formals.length)]
    rw [hmatch]
    constructor
    · exact ⟨_, byPosition_argumentFaults s.name s.formals (actuals args), rfl⟩
    · exact List.isEmpty_iff

/-- `f(1, x, 1 == 1, 'a')` behind `int f(char c, int d, int e);`, where `x` was reported before. The
third argument does not suit, and there is one too many. -/
theorem matchArguments_exact_sample :
    let params : List Param := [⟨"c", .char, false, ⟨11, 1⟩⟩, ⟨"d", .int, false, ⟨18, 1⟩⟩,
      ⟨"e", .int, false, ⟨25, 1⟩⟩]
    let t := (Table.empty.record ⟨"f", ⟨4, 1⟩, .int, params⟩ .local false .prototype).value.2
    let f : Handle := ⟨.global, 0, 1⟩
    let one : Node := ⟨.int 1, .int, ⟨30, 1⟩⟩
    let args := Node.argumentList [one, .error ⟨33, 1⟩, ⟨.binary .eq one one, .bool, ⟨36, 6⟩⟩,
      ⟨.char 97, .char, ⟨44, 3⟩⟩]
    let checked := matchArguments t f args ⟨28, 20⟩
    checked.reports = [⟨.argument "f" 3 .int .bool, ⟨36, 6⟩⟩, ⟨.argumentCount "f" 3 4, ⟨28, 20⟩⟩] ∧
      ∃ s, t.get? f = some s ∧ s.formals.length = 3 ∧
        ∃ elements, (∀ ns, Node.Holds args ns ↔ ns = elements) ∧
          Matched s ⟨28, 20⟩ elements checked := by
  intro params t f one args checked
  have found : t.get? f = some ⟨"f", .global, .function, none, false,
      some ⟨.int, params.map fun p => ⟨p.name, .local, true, p.ty⟩, .prototyped, false⟩,
      ⟨4, 1⟩⟩ := by
    decide +kernel
  exact ⟨by decide +kernel, _, found, rfl, matchArguments_exact found args _⟩

end Typing

end Cmm
