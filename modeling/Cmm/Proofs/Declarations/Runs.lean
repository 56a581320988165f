import Cmm.Proofs.Handover.Bodies

/-!
# What a declaration list does

* `Table.aged` — the table of a program that cleared its locals another number of times.
  `Table.record_aged` — a prototype is entered alike there.
* `Env.agree_prototypes` — prototypes between commas are entered like prototypes in declarations of
  their own. Between commas the mark `extern`, the type word and the local scope stay in force, and
  only the locals are dropped; at the end of a declaration all of them are.
* `Env.run_objects` — variables and arrays between commas are declared like variables and arrays in
  declarations of their own.
-/

set_option autoImplicit false

namespace Cmm

namespace Table

variable {t t' : Table} {g : UInt32}

/-- A handle that is up to date changes the symbol at its index. -/
theorem modify_of_live {h : Handle} (live : (t.bindings h.scope).generation = h.generation)
    (f : Symbol → Symbol) : t.modify h f = t.update h.scope (·.modify h.index f) := by
  obtain ⟨scope, index, generation⟩ := h
  cases scope <;> simp only [modify, update, bindings] at live ⊢ <;> rw [if_pos live]

theorem get?_of_live {h : Handle} (live : (t.bindings h.scope).generation = h.generation) :
    t.get? h = (t.bindings h.scope).entries[h.index]? := by
  have heq : h = t.handle h.scope h.index := by
    rw [handle, live]
  rw [heq, get?_handle]
  rfl

/-- The same table in a program that cleared its locals another number of times. -/
def aged (t : Table) (generation : UInt32) : Table :=
  { t with locals := { t.locals with generation } }

/-- Declaring a parameter takes no notice of how often the locals were cleared. -/
theorem addFormal_aged (t : Table) (g : UInt32) (p : Param) :
    (t.aged g).addFormal .local p =
      ⟨((t.addFormal .local p).value.1, (t.addFormal .local p).value.2.aged g),
        (t.addFormal .local p).reports⟩ := by
  have hfind : ((t.aged g).bindings .local).find? p.name = (t.bindings .local).find? p.name := rfl
  unfold addFormal
  split
  · rfl
  · unfold insert
    rw [hfind]
    cases (t.bindings .local).find? p.name with
    | some i | none =>
        simp only [bind, pure]
        rw [modify_of_live rfl, modify_of_live rfl, get?_of_live rfl, get?_of_live rfl]
        rfl

theorem addFormals_aged (t : Table) (g : UInt32) (ps : List Param) :
    (t.aged g).addFormals .local ps =
      ⟨((t.addFormals .local ps).value.1, (t.addFormals .local ps).value.2.aged g),
        (t.addFormals .local ps).reports⟩ := by
  induction ps generalizing t with
  | nil => rfl
  | cons p rest ih =>
      rw [addFormals, addFormals, addFormal_aged]
      simp only [bind, pure]
      rw [ih]

/-- The function of a header is looked up and declared in the program. -/
theorem claim_aged (t : Table) (g : UInt32) (h : Header) (role : Role) :
    (t.aged g).claim h role =
      ⟨((t.claim h role).value.1, (t.claim h role).value.2.1.aged g,
        (t.claim h role).value.2.2), (t.claim h role).reports⟩ := by
  have hlookup : (t.aged g).lookup h.name .global = t.lookup h.name .global := rfl
  unfold claim
  rw [hlookup]
  cases hl : t.lookup h.name .global with
  | none =>
      obtain hfind := Option.map_eq_none_iff.1 hl
      have hfind' : ((t.aged g).bindings .global).find? h.name = none := hfind
      simp only [insert, hfind, hfind', bind, pure]
      rfl
  | some callee =>
      obtain ⟨i, -, rfl⟩ := Option.map_eq_some_iff.1 hl
      have hget : (t.aged g).get? (t.handle .global i) = t.get? (t.handle .global i) := rfl
      simp only [hget]
      cases (t.get? (t.handle .global i)).bind (·.signature?) with
      | none => rfl
      | some sig =>
          dsimp only
          split <;> rfl

theorem modify_global_aged (t : Table) (g : UInt32) {h : Handle} (isGlobal : h.scope = .global)
    (f : Symbol → Symbol) : (t.aged g).modify h f = (t.modify h f).aged g := by
  unfold modify
  rw [isGlobal]
  rfl

theorem record_aged (t : Table) (g : UInt32) (h : Header) (isExtern : Bool) (role : Role) :
    (t.aged g).record h .local isExtern role =
      ⟨((t.record h .local isExtern role).value.1,
        (t.record h .local isExtern role).value.2.aged g),
        (t.record h .local isExtern role).reports⟩ := by
  obtain ⟨isGlobal, -⟩ := claim_callee t h role
  unfold record
  rw [claim_aged]
  simp only [bind, pure]
  rw [addFormals_aged]
  cases (t.claim h role).value.2.2 with
  | false => rfl
  | true =>
      dsimp only
      simp only [if_true]
      rw [modify_global_aged _ _ isGlobal]

/-- A table whose locals are dropped twice has dropped them. -/
theorem clear_clear (t : Table) : (t.clear .local).clear .local =
    (t.clear .local).aged (t.locals.generation + 1 + 1) := rfl

end Table

/-! ## Prototypes -/

/-- A function header in a list of prototypes: the name with its place, and the parameters. -/
structure Prototype where
  name : String
  span : Span
  params : List Param

namespace Prototype

def items (p : Prototype) : List Item := [.header p.name p.span p.params, .prototype]

/-- The items in front of the first prototype of a list. -/
def opening (isExtern : Bool) (spec : TypeSpec) : List Item :=
  (if isExtern then [.external] else []) ++ [.spec spec]

/-- The items of a declaration of some prototypes. -/
def listed (isExtern : Bool) (spec : TypeSpec) (ps : List Prototype) : List Item :=
  opening isExtern spec ++ (ps.flatMap items ++ [.endPrototypes])

/-- The items of one declaration for each prototype. -/
def apart (isExtern : Bool) (spec : TypeSpec) (ps : List Prototype) : List Item :=
  ps.flatMap fun p => listed isExtern spec [p]

/-- Enters the prototype with its parameters in the function. -/
def enter (isExtern : Bool) (spec : TypeSpec) (t : Table) (p : Prototype) :
    Checked (Handle × Table) :=
  t.record ⟨p.name, p.span, spec, p.params⟩ .local isExtern .prototype

end Prototype

namespace Env

/-- Two runs have the same reports and the same results, but for how often they cleared the
locals. -/
structure Agree (x y : Checked (List Definition × Env)) : Prop where
  reports : x.reports = y.reports
  definitions : x.value.1 = y.value.1
  frame : x.value.2.frame = y.value.2.frame
  table : ∃ g, y.value.2.table = x.value.2.table.aged g

/-- Runs that agree go on to agree. -/
theorem Agree.append {env env' : Env} {items items' rest rest' : List Item}
    (reports : (env.run items).reports = (env'.run items').reports)
    (definitions : (env.run items).value.1 = (env'.run items').value.1)
    (behind : Agree ((env.after items).run rest) ((env'.after items').run rest')) :
    Agree (env.run (items ++ rest)) (env'.run (items' ++ rest')) := by
  obtain ⟨hreports, hdefinitions, hframe, htable⟩ := behind
  refine ⟨?_, ?_, ?_, ?_⟩
  · rw [reports_run_append, reports_run_append, reports, hreports]
  · rw [definitions_append, definitions_append, definitions, hdefinitions]
  · show (env.after _).frame = (env'.after _).frame
    rw [after_append, after_append]
    exact hframe
  · show ∃ g, (env'.after _).table = (env.after _).table.aged g
    rw [after_append, after_append]
    exact htable

variable {isExtern : Bool} {spec : TypeSpec}

/-- A prototype of a list is entered, and its parameters are dropped. -/
theorem run_prototype {env : Env} (spec_eq : env.frame.spec = spec)
    (extern_eq : env.frame.isExtern = isExtern) (p : Prototype) :
    let entered := p.enter isExtern spec env.table
    (env.run p.items).value = ([], ⟨entered.value.2.clear .local, { env.frame with
        scope := .local
        result := spec
        header? := none }⟩) ∧
      (env.run p.items).reports = entered.reports := by
  subst spec_eq extern_eq
  have hrecord := @record_of_some (env.stage p.name p.span p.params)
    ⟨p.name, p.span, env.frame.spec, p.params⟩ .prototype (by rw [stage_eq])
  obtain ⟨hvalue, hreports⟩ := hrecord
  have hrun : (env.run p.items).reports =
      ((env.stage p.name p.span p.params).record .prototype).reports := by
    simp [Prototype.items, run, step, prototype]
  rw [hreports, stage_eq] at hrun
  have hpair : (env.run p.items).value =
      ([], ⟨((env.stage p.name p.span p.params).record .prototype).value.2.table.clear .local,
        ((env.stage p.name p.span p.params).record .prototype).value.2.frame⟩) := rfl
  rw [hvalue, stage_eq] at hpair
  exact ⟨hpair, hrun⟩

/-- The opening of a declaration leads to its type word and its mark. -/
theorem run_opening (env : Env) (isExtern : Bool) (spec : TypeSpec) :
    env.run (Prototype.opening isExtern spec) = ⟨([], ⟨env.table, { env.frame with
      spec := spec
      isExtern := isExtern || env.frame.isExtern }⟩), []⟩ := by
  cases isExtern <;> rfl

/-- Behind the opening of a declaration, its first prototype is entered. -/
theorem run_first {env : Env} (internal : env.frame.isExtern = false) (isExtern : Bool)
    (spec : TypeSpec) (p : Prototype) :
    let entered := p.enter isExtern spec env.table
    (env.run (Prototype.opening isExtern spec ++ p.items)).value =
        ([], ⟨entered.value.2.clear .local, { env.frame with
          scope := .local
          spec := spec
          result := spec
          header? := none
          isExtern := isExtern }⟩) ∧
      (env.run (Prototype.opening isExtern spec ++ p.items)).reports = entered.reports := by
  let opened : Env := ⟨env.table, { env.frame with
    spec := spec
    isExtern := isExtern || env.frame.isExtern }⟩
  have hopening : env.run (Prototype.opening isExtern spec) = ⟨([], opened), []⟩ :=
    env.run_opening isExtern spec
  have hspec : opened.frame.spec = spec := rfl
  have hextern : opened.frame.isExtern = isExtern := by
    show (isExtern || env.frame.isExtern) = isExtern
    rw [internal, Bool.or_false]
  obtain ⟨hvalue, hreports⟩ := run_prototype hspec hextern p
  have hafter : env.after (Prototype.opening isExtern spec) = opened := by
    rw [after, hopening]
  refine ⟨Prod.ext ?_ ?_, ?_⟩
  · rw [definitions_append, hafter, hopening, hvalue]
    rfl
  · show env.after _ = _
    rw [after_append, hafter, after, hvalue, ← hextern]
  · rw [reports_run_append, hopening, hafter]
    exact hreports

/-- One prototype in a declaration of its own. -/
theorem run_alone {env : Env} (internal : env.frame.isExtern = false) (isExtern : Bool)
    (spec : TypeSpec) (p : Prototype) :
    let entered := p.enter isExtern spec env.table
    (env.run (Prototype.listed isExtern spec [p])).value =
        ([], ⟨(entered.value.2.clear .local).clear .local, { Frame.start with spec }⟩) ∧
      (env.run (Prototype.listed isExtern spec [p])).reports = entered.reports := by
  obtain ⟨hvalue, hreports⟩ := run_first internal isExtern spec p
  dsimp only
  rw [Prototype.listed, List.flatMap_singleton, ← List.append_assoc]
  refine ⟨Prod.ext ?_ ?_, ?_⟩
  · rw [definitions_append, hvalue]
    rfl
  · show env.after _ = _
    rw [after_append, after, after, hvalue]
    rfl
  · rw [reports_run_append, hreports]
    exact List.append_nil _

/-- One environment is that behind a prototype in a list, the other that behind the same prototype
in a declaration of its own. -/
structure Beside (isExtern : Bool) (spec : TypeSpec) (env env' : Env) : Prop where
  spec_eq : env.frame.spec = spec
  extern_eq : env.frame.isExtern = isExtern
  frame : env'.frame = { Frame.start with spec }
  table : ∃ t g, env.table = Table.clear t .local ∧ env'.table = (t.clear .local).aged g

/-- The other prototypes do the same from there. -/
theorem Beside.agree {env env' : Env} (beside : Beside isExtern spec env env')
    (ps : List Prototype) : Agree (env.run (ps.flatMap Prototype.items ++ [.endPrototypes]))
      (env'.run (Prototype.apart isExtern spec ps)) := by
  induction ps generalizing env env' with
  | nil =>
      obtain ⟨t, g, htable, htable'⟩ := beside.table
      refine ⟨rfl, rfl, ?_, g, ?_⟩
      · show env.frame.reset = env'.frame
        rw [beside.frame, Frame.reset, beside.spec_eq]
      · show env'.table = (env.table.clear .local).aged g
        rw [htable', htable]
        rfl
  | cons p rest ih =>
      obtain ⟨t, g, htable, htable'⟩ := beside.table
      have internal : env'.frame.isExtern = false := by
        rw [beside.frame]
        rfl
      obtain ⟨hvalue, hreports⟩ := run_prototype beside.spec_eq beside.extern_eq p
      obtain ⟨hvalue', hreports'⟩ := run_alone internal isExtern spec p
      -- The parameters are entered alike, however often the locals were cleared before.
      rw [htable] at hvalue hreports
      rw [htable', Prototype.enter, Table.record_aged, ← Prototype.enter] at hvalue' hreports'
      rw [List.flatMap_cons, List.append_assoc, Prototype.apart, List.flatMap_cons,
        ← Prototype.apart]
      refine .append (hreports.trans hreports'.symm) (by rw [hvalue, hvalue']) (ih ?_)
      rw [after, after, hvalue, hvalue']
      exact ⟨beside.spec_eq, beside.extern_eq, rfl, _, _, rfl, Table.clear_clear _⟩

/-- **Prototypes in one declaration do what they do in declarations of their own.** -/
theorem agree_prototypes {env : Env} (internal : env.frame.isExtern = false) (isExtern : Bool)
    (spec : TypeSpec) (p : Prototype) (ps : List Prototype) :
    Agree (env.run (Prototype.listed isExtern spec (p :: ps)))
      (env.run (Prototype.apart isExtern spec (p :: ps))) := by
  obtain ⟨hvalue, hreports⟩ := run_first internal isExtern spec p
  obtain ⟨hvalue', hreports'⟩ := run_alone internal isExtern spec p
  rw [Prototype.listed, List.flatMap_cons, List.append_assoc, ← List.append_assoc,
    Prototype.apart, List.flatMap_cons, ← Prototype.apart]
  refine .append (hreports.trans hreports'.symm) (by rw [hvalue, hvalue']) (Beside.agree ?_ ps)
  rw [after, after, hvalue, hvalue']
  exact ⟨rfl, rfl, rfl, _, _, rfl, Table.clear_clear _⟩

/-! ## Variables -/

/-- The type word of a declaration is read again. -/
theorem setSpec_of_spec {env : Env} (spec_eq : env.frame.spec = spec) : env.setSpec spec = env := by
  subst spec_eq
  rfl

theorem run_spec (env : Env) (spec : TypeSpec) (items : List Item) :
    env.run (.spec spec :: items) = (env.setSpec spec).run items := by
  have hreports : (env.run (.spec spec :: items)).reports =
      ((env.setSpec spec).run items).reports := by
    rw [reports_run_cons]
    rfl
  rw [show env.run (.spec spec :: items) =
    ⟨((env.setSpec spec).run items).value, (env.run (.spec spec :: items)).reports⟩ from rfl,
    hreports]

/-- Runs that agree behind an item agree. -/
theorem run_cons_congr {env : Env} {item : Item} {items items' : List Item}
    (behind : (env.step item).value.2.run items = (env.step item).value.2.run items') :
    env.run (item :: items) = env.run (item :: items') := by
  unfold run
  simp only [bind, pure]
  rw [behind]

/-- **Variables in one declaration do what they do in declarations of their own**, in every
environment. -/
theorem run_objects (env : Env) (spec : TypeSpec) {first : Item} {items : List Item}
    (objects : ∀ item ∈ first :: items, item.isObject = true) :
    env.run (.spec spec :: first :: items) =
      env.run ((first :: items).flatMap fun item => [.spec spec, item]) := by
  have hbehind : ∀ {items : List Item} {env : Env}, (∀ item ∈ items, item.isObject = true) →
      env.frame.spec = spec →
      env.run items = env.run (items.flatMap fun item => [.spec spec, item]) := by
    intro items
    induction items with
    | nil => exact fun _ _ => rfl
    | cons item rest ih =>
        intro env objects hspec
        obtain ⟨object, objects⟩ := List.forall_mem_cons.1 objects
        rw [List.flatMap_cons, List.cons_append, run_spec, setSpec_of_spec hspec]
        exact run_cons_congr (ih objects (by rw [frame_step_object object, hspec]))
  have hspec : (env.setSpec spec).frame.spec = spec := rfl
  rw [run_spec, hbehind objects hspec, List.flatMap_cons, List.cons_append, run_spec, run_spec,
    setSpec_of_spec hspec]

end Env

end Cmm
