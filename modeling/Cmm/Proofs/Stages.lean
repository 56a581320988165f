import Cmm.Grammar.Program
import Cmm.Proofs.Parse

/-!
# The order of the items of a program

* `Stage` — between two declarations, behind a header, inside a function.
* `Item.Moves` — the items that can stand at a stage, and the stage behind each; `Item.Leads` — the
  same of a list of items.
* `Grammar.program_leads` — the items of a program lead from between declarations back to there. One
  lemma per production comes before it.
-/

set_option autoImplicit false

namespace Cmm

/-- A place among the items of a program. -/
inductive Stage where
  | between
  | headed
  | inside

/-- An item can stand at a stage and moves on to another. -/
inductive Item.Moves : Stage → Item → Stage → Prop
  | external : Moves .between .external .between
  | spec {stage : Stage} (spec : TypeSpec) (free : stage ≠ .headed) :
      Moves stage (.spec spec) stage
  | scalar {stage : Stage} (name : String) (span : Span) (free : stage ≠ .headed) :
      Moves stage (.scalar name span) stage
  | array {stage : Stage} (name size : String) (sizeSpan span : Span) (free : stage ≠ .headed) :
      Moves stage (.array name size sizeSpan span) stage
  | header (name : String) (span : Span) (params : List Param) :
      Moves .between (.header name span params) .headed
  | prototype : Moves .headed .prototype .between
  | endPrototypes : Moves .between .endPrototypes .between
  | beginBody : Moves .headed .beginBody .inside
  | body (body : List Stmt) (closing : Span) : Moves .inside (.body body closing) .between

/-- Items one after the other move from a stage to another. -/
inductive Item.Leads : Stage → List Item → Stage → Prop
  | nil (stage : Stage) : Leads stage [] stage
  | cons {a b c : Stage} {item : Item} {rest : List Item} (head : item.Moves a b)
      (tail : Leads b rest c) : Leads a (item :: rest) c

namespace Item.Leads

variable {a b c : Stage} {items rest : List Item}

theorem single {item : Item} (h : item.Moves a b) : Leads a [item] b := .cons h (.nil b)

theorem append (h : Leads a items b) (h' : Leads b rest c) : Leads a (items ++ rest) c := by
  induction h with
  | nil _ => exact h'
  | cons head _ ih => exact .cons head (ih h')

/-- Items that each stay at a stage stay there together. -/
theorem of_forall (h : ∀ item ∈ items, item.Moves a a) : Leads a items a := by
  induction items with
  | nil => exact .nil a
  | cons item rest ih =>
      exact .cons (h item List.mem_cons_self) (ih fun i hi => h i (List.mem_cons_of_mem _ hi))

theorem flatten {lists : List (List Item)} (h : ∀ items ∈ lists, Leads a items a) :
    Leads a lists.flatten a := by
  induction lists with
  | nil => exact .nil a
  | cons items rest ih =>
      exact (h items List.mem_cons_self).append (ih fun i hi => h i (List.mem_cons_of_mem _ hi))

/-- An item of a list stands at some stage of it. -/
theorem split {item : Item} (h : Leads a (items ++ item :: rest) c) :
    ∃ b b', Leads a items b ∧ item.Moves b b' := by
  induction items generalizing a with
  | nil =>
      cases h with
      | cons head _ => exact ⟨a, _, .nil a, head⟩
  | cons first items ih =>
      cases h with
      | cons head tail =>
          obtain ⟨b, b', hlead, hmove⟩ := ih tail
          exact ⟨b, b', .cons head hlead, hmove⟩

end Item.Leads

namespace Grammar

open Parse

variable {stage : Stage}

theorem declarator_moves (free : stage ≠ .headed) (name : String) (span : Span) :
    Yields (declarator name span) fun item => item.Moves stage stage := by
  unfold declarator
  refine .after fun isArray => ?_
  split
  · refine .after fun size => .after fun _ => .after fun whole => .pure ?_
    exact .array name _ _ _ free
  · exact .pure (.scalar name span free)

theorem declarators_moves (free : stage ≠ .headed) (fuel : Nat) (name : String) (span : Span) :
    Yields (declarators fuel name span) fun items => ∀ item ∈ items, item.Moves stage stage := by
  unfold declarators
  refine (declarator_moves free name span).bind fun first hfirst => ?_
  refine Yields.bind (P := fun others => ∀ item ∈ others, item.Moves stage stage) ?_ ?_
  · refine .holding (.after fun more => ?_)
    split
    · refine .commaSeparated (.after fun another => ?_) _ _
      exact declarator_moves free another.1 another.2
    · exact .pure (by simp)
  · intro others hothers
    refine .after fun _ => .pure ?_
    simpa using ⟨hfirst, hothers⟩

theorem declarators_leads (free : stage ≠ .headed) (fuel : Nat) (name : String) (span : Span) :
    Yields (declarators fuel name span) fun items => Item.Leads stage items stage :=
  (declarators_moves free fuel name span).imp fun _ => .of_forall

theorem prototype_leads (fuel : Nat) :
    Yields (prototype fuel) fun items => Item.Leads .between items .between := by
  unfold prototype
  refine .after fun name => .after fun params => .pure ?_
  exact .cons (.header _ _ _) (.single .prototype)

theorem prototypes_leads (fuel : Nat) :
    Yields (prototypes fuel) fun items => Item.Leads .between items .between := by
  unfold prototypes
  refine .after fun more => ?_
  dsimp only
  split
  all_goals refine Yields.bind (P := fun others => Item.Leads .between others .between) ?_ ?_
  · exact (Yields.commaSeparated (prototype_leads fuel) _ fuel).map fun _ => .flatten
  · exact fun others hothers => .after fun _ => .pure (hothers.append (.single .endPrototypes))
  · exact .pure (.nil _)
  · exact fun others hothers => .after fun _ => .pure (hothers.append (.single .endPrototypes))

theorem locals_moves (bound fuel : Nat) :
    Yields (locals bound fuel) fun items => ∀ item ∈ items, item.Moves .inside .inside := by
  induction fuel with
  | zero => exact .pure (by simp)
  | succ fuel ih =>
      refine .after fun k => ?_
      split
      · have free : Stage.inside ≠ .headed := by simp
        refine .after fun spec => .after fun name => ?_
        refine (declarators_moves free bound name.1 name.2).holding.bind fun declared hd => ?_
        refine ih.holding.bind fun rest hrest => .pure ?_
        exact List.forall_mem_append.2 ⟨List.forall_mem_cons.2 ⟨.spec spec free, hd⟩, hrest⟩
      · exact .pure (by simp)

theorem locals_leads (bound fuel : Nat) :
    Yields (locals bound fuel) fun items => Item.Leads .inside items .inside :=
  (locals_moves bound fuel).imp fun _ => .of_forall

theorem functionBody_leads (fuel : Nat) :
    Yields (functionBody fuel) fun items => Item.Leads .inside items .between := by
  unfold functionBody
  refine .after fun _ => (locals_leads fuel fuel).bind fun declared hdeclared => .holding ?_
  refine .after fun body => .after fun closing => .after fun _ => .pure ?_
  exact hdeclared.append (.single (.body body _))

theorem afterHeader_leads (fuel : Nat) (isExtern : Bool) (name : String) (span : Span)
    (params : List Param) :
    Yields (afterHeader fuel isExtern (.header name span params)) fun items =>
      Item.Leads .between items .between := by
  unfold afterHeader
  refine .after fun k => ?_
  split
  · refine (functionBody_leads fuel).holding.bind fun rest hrest => .pure ?_
    exact .cons (.header _ _ _) (.cons .beginBody hrest)
  · refine (prototypes_leads fuel).holding.bind fun rest hrest => .pure ?_
    exact .cons (.header _ _ _) (.cons .prototype hrest)

theorem declaration_leads (fuel : Nat) :
    Yields (declaration fuel) fun items => Item.Leads .between items .between := by
  unfold declaration
  refine .after fun isExtern => .after fun spec => .after fun name => .holding (.after fun k => ?_)
  have free : Stage.between ≠ .headed := by simp
  have hopening : Item.Leads .between
      ((if isExtern then [.external] else []) ++ [.spec spec]) .between := by
    refine .append ?_ (.single (.spec spec free))
    split
    · exact .single .external
    · exact .nil _
  generalize (if isExtern then [Item.external] else []) ++ [.spec spec] = opening at hopening ⊢
  split
  · refine .after fun params => ?_
    refine (afterHeader_leads fuel isExtern name.1 name.2 params).bind fun rest hrest => .pure ?_
    exact hopening.append hrest
  · split
    · exact .fail
    · refine (declarators_leads free fuel name.1 name.2).bind fun rest hrest => .pure ?_
      exact hopening.append hrest

/-- **The items of a program come in order**: headers before bodies, and locals within them. -/
theorem program_leads (bound fuel : Nat) :
    Yields (program bound fuel) fun items => Item.Leads .between items .between := by
  induction fuel with
  | zero => exact .pure (.nil _)
  | succ fuel ih =>
      refine .after fun k => ?_
      split
      · exact .pure (.nil _)
      · refine (declaration_leads bound).bind fun items hitems => ?_
        exact ih.holding.bind fun rest hrest => .pure (hitems.append hrest)

end Grammar

/-- The items of a program that is read to its end come in order. -/
theorem Reading.leads {tokens : List Token} (complete : (Reading.ofTokens tokens).fault? = none) :
    Item.Leads .between (Reading.ofTokens tokens).items .between := by
  unfold Reading.ofTokens at complete ⊢
  split
  · rename_i items c h
    exact Grammar.program_leads _ _ _ items c h
  · rename_i h
    rw [h] at complete
    cases complete

end Cmm
