import Cmm.Proofs.Signatures

/-!
# Names that are declared twice

A name that a scope has already is reported and keeps its symbol, but the declaration writes its own
type into that symbol.

* `Symbol.redeclared` — what a declaration makes of the symbol that is there; the name, the scope,
  the place and the signature stay.
* `Table.Stands` — a local parameter has the place of one occurrence of its name and the type of
  another; `Table.stands_addFormals` says which.
* `Env.redeclaration_retypes` — a variable takes the type of its last declaration, and a parameter
  that of its last occurrence. The first declaration is left as it was only where the two agree;
  `Env.first_declaration_lost` is a case where they do not.
-/

set_option autoImplicit false

namespace Cmm

/-- What the declaration of a scalar, or of an array of some size, makes of a symbol. -/
def Symbol.redeclared (s : Symbol) (scalar : Scalar) : (count? : Option Nat) → Symbol
  | none => { s with ty := scalar.ty, isFormal := false }
  | some count => { s with ty := .array scalar, count? := some count, isFormal := false }

theorem Bindings.modify_eq_self {b : Bindings} {i : Nat} {s : Symbol} {f : Symbol → Symbol}
    (hs : b.entries[i]? = some s) (same : f s = s) : b.modify i f = b := by
  have hentries : b.entries.modify i f = b.entries := by
    apply Array.ext_getElem?
    intro j
    rw [Array.getElem?_modify]
    split
    · rename_i heq
      rw [← heq, hs, Option.map_some, same]
    · rfl
  unfold modify
  rw [hentries]

namespace Table

variable {t : Table} {h : Handle} {s : Symbol} {name : String} {span : Span} {ty : Ty} {p : Param}
  {ps : List Param}

/-- A change that is none for the symbol of a handle changes nothing. -/
theorem modify_eq_self_iff {f : Symbol → Symbol} (hs : t.get? h = some s) :
    t.modify h f = t ↔ f s = s := by
  constructor
  · intro heq
    have hmodify : (t.modify h f).get? h = some (f s) := by
      rw [get?_modify, if_pos rfl, hs]
      rfl
    rw [heq, hs] at hmodify
    exact (Option.some.inj hmodify).symm
  · intro same
    obtain ⟨hg, he⟩ := get?_eq_some_iff.1 hs
    refine update_eq_self ?_
    rw [if_pos hg, Bindings.modify_eq_self he same]

/-- Declaring a name that is there is reported once, with the place of the first declaration. -/
theorem insert_of_lookup {scope : Scope} (found : t.lookup name scope = some h)
    (hs : t.get? h = some s) (span : Span) :
    (t.insert name scope span).value = (h, t) ∧
      (t.insert name scope span).reports = [⟨.redeclared name s.span, span⟩] := by
  obtain ⟨i, hi, rfl⟩ := Option.map_eq_some_iff.1 found
  rw [get?_handle] at hs
  refine ⟨(insert_of_some hi).1, ?_⟩
  unfold insert
  rw [hi]
  simp [hs, Checked.report]

/-! ## Parameters -/

/-- A local name is a parameter of some type, declared at some place. -/
def Stands (t : Table) (name : String) (span : Span) (ty : Ty) : Prop :=
  ∃ h s, h.scope = .local ∧ t.get? h = some s ∧ s.name = name ∧ s.span = span ∧ s.ty = ty ∧
    s.isFormal = true

/-- The place where a local name is declared. -/
def place? (t : Table) (name : String) : Option Span :=
  ((t.lookup name .local).bind t.get?).map (·.span)

/-- The parameters of a name that declare it. -/
def occurrences (name : String) (ps : List Param) : List Param :=
  ps.filter fun p => p.spec ≠ .void ∧ p.name = name

theorem place?_eq_some_iff (ht : t.Sound) : t.place? name = some span ↔
    ∃ h s, h.scope = .local ∧ t.get? h = some s ∧ s.name = name ∧ s.span = span := by
  unfold place?
  constructor
  · intro hplace
    obtain ⟨s, hbind, hspan⟩ := Option.map_eq_some_iff.1 hplace
    obtain ⟨h, hl, hs⟩ := Option.bind_eq_some_iff.1 hbind
    obtain ⟨hscope, s', hs', hname⟩ := (lookup_eq_some_iff ht).1 hl
    rw [hs, Option.some.injEq] at hs'
    subst hs'
    exact ⟨h, s, hscope, hs, hname, hspan⟩
  · rintro ⟨h, s, hscope, hs, hname, hspan⟩
    rw [(lookup_eq_some_iff ht).2 ⟨hscope, s, hs, hname⟩, Option.bind_some, hs, ← hspan]
    rfl

/-- Two tables with the same locals have a name at the same place. -/
theorem place?_congr {t' : Table} (same : t'.locals = t.locals) (name : String) :
    t'.place? name = t.place? name := by
  have hsame : t'.bindings .local = t.bindings .local := same
  have hget : ∀ i, t'.get? (t'.handle .local i) = t.get? (t.handle .local i) := by
    intro i
    rw [get?_handle, get?_handle, hsame]
  unfold place? lookup
  rw [hsame]
  cases (t.bindings .local).find? name with
  | none => rfl
  | some i => exact congrArg (Option.map (·.span)) (hget i)

/-- A parameter leaves the symbols of other names alone. -/
theorem get?_addFormal_of_ne (hne : ¬ (p.spec ≠ .void ∧ p.name = s.name)) :
    (t.addFormal .local p).value.2.get? h = some s ↔ t.get? h = some s := by
  unfold addFormal
  split
  · rfl
  · rename_i hp
    have hother : p.name ≠ s.name := fun hname => hne ⟨hp, hname⟩
    obtain ⟨s', hs', hname⟩ := get?_insert_self (t := t) p.name .local p.span
    show (Table.modify _ _ _).get? h = some s ↔ _
    rw [get?_modify]
    constructor
    · intro hs
      split at hs
      · rename_i heq
        rw [← heq, hs', Option.map_some, Option.some.injEq] at hs
        rw [← hs] at hother
        exact absurd hname.symm hother
      · rcases get?_of_get?_insert hs with hold | ⟨-, rfl⟩
        · exact hold
        · exact absurd rfl hother
    · intro hs
      have hkept := get?_insert p.name .local p.span hs
      rw [if_neg ?_]
      · exact hkept
      · intro heq
        rw [heq, hkept, Option.some.injEq] at hs'
        rw [hs'] at hother
        exact hother hname.symm

/-- Where a parameter is declared, its symbol has the place of the name, if it had one. -/
theorem get?_insert_local (name : String) (span : Span) :
    ∃ s, (t.insert name .local span).value.2.get? (t.insert name .local span).value.1 = some s ∧
      s.name = name ∧ s.span = (t.place? name).getD span := by
  cases hf : t.lookup name .local with
  | some h =>
      obtain ⟨-, s, hs, hname⟩ := get?_of_lookup hf
      refine ⟨s, ?_, hname, ?_⟩
      · rw [(insert_of_lookup hf hs span).1]
        exact hs
      · rw [place?, hf, Option.bind_some, hs]
        rfl
  | none =>
      have hnew := Option.map_eq_none_iff.1 hf
      rw [(insert_of_none hnew).1, place?, hf]
      refine ⟨.fresh name .local span, ?_, rfl, rfl⟩
      rw [get?_eq_some_iff]
      simp [handle, Bindings.push]

/-- A parameter gives its type to the symbol of its name, whoever declared it. -/
theorem stands_addFormal_self (t : Table) (hp : p.spec ≠ .void) :
    (t.addFormal .local p).value.2.Stands p.name ((t.place? p.name).getD p.span) p.ty := by
  obtain ⟨s, hs, hname, hspan⟩ := get?_insert_local (t := t) p.name p.span
  refine ⟨(t.insert p.name .local p.span).value.1, { s with isFormal := true, ty := p.ty },
    scope_insert .., ?_, hname, hspan, rfl, rfl⟩
  unfold addFormal
  rw [if_neg hp]
  show (Table.modify _ _ _).get? _ = _
  rw [get?_modify, if_pos rfl, hs]
  rfl

theorem Stands.addFormal_of_ne (ht : t.Stands name span ty)
    (hne : ¬ (p.spec ≠ .void ∧ p.name = name)) :
    (t.addFormal .local p).value.2.Stands name span ty := by
  obtain ⟨h, s, hscope, hs, rfl, hrest⟩ := ht
  exact ⟨h, s, hscope, (get?_addFormal_of_ne hne).2 hs, rfl, hrest⟩

theorem Stands.place? (ht : t.Stands name span ty) (hsound : t.Sound) :
    t.place? name = some span := by
  obtain ⟨h, s, hscope, hs, hname, hspan, -⟩ := ht
  exact (place?_eq_some_iff hsound).2 ⟨h, s, hscope, hs, hname, hspan⟩

theorem place?_addFormal_of_ne (hsound : t.Sound) (hne : ¬ (p.spec ≠ .void ∧ p.name = name)) :
    (t.addFormal .local p).value.2.place? name = t.place? name := by
  have hsound' := (growths_addFormal t .local p).edits.sound hsound
  apply Option.ext
  intro span
  rw [place?_eq_some_iff hsound', place?_eq_some_iff hsound]
  constructor
  · rintro ⟨h, s, hscope, hs, rfl, hspan⟩
    exact ⟨h, s, hscope, (get?_addFormal_of_ne hne).1 hs, rfl, hspan⟩
  · rintro ⟨h, s, hscope, hs, rfl, hspan⟩
    exact ⟨h, s, hscope, (get?_addFormal_of_ne hne).2 hs, rfl, hspan⟩

theorem occurrences_cons_of_pos (hp : p.spec ≠ .void ∧ p.name = name) :
    occurrences name (p :: ps) = p :: occurrences name ps :=
  List.filter_cons_of_pos (decide_eq_true hp)

theorem occurrences_cons_of_neg (hp : ¬ (p.spec ≠ .void ∧ p.name = name)) :
    occurrences name (p :: ps) = occurrences name ps :=
  List.filter_cons_of_neg fun h => hp (of_decide_eq_true h)

/-- A name that is a parameter takes the type of the last parameter of that name. -/
theorem Stands.addFormals (ht : t.Stands name span ty) (hsound : t.Sound) :
    (t.addFormals .local ps).value.2.Stands name span
      (((occurrences name ps).map (·.ty)).getLastD ty) := by
  induction ps generalizing t ty with
  | nil => exact ht
  | cons p rest ih =>
      have hsound' := (growths_addFormal t .local p).edits.sound hsound
      show (Table.addFormals _ .local rest).value.2.Stands name span _
      by_cases hp : p.spec ≠ .void ∧ p.name = name
      · rw [occurrences_cons_of_pos hp, List.map_cons, List.getLastD_cons]
        obtain ⟨hspec, rfl⟩ := hp
        have hself := stands_addFormal_self t hspec
        rw [ht.place? hsound] at hself
        exact ih hself hsound'
      · rw [occurrences_cons_of_neg hp]
        exact ih (ht.addFormal_of_ne hp) hsound'

/-- **A repeated parameter** has the place of its first occurrence, or of the name where it is
local already, and the type of its last occurrence. -/
theorem stands_addFormals (hsound : t.Sound) {first last : Param}
    (hfirst : (occurrences name ps).head? = some first)
    (hlast : (occurrences name ps).getLast? = some last) :
    (t.addFormals .local ps).value.2.Stands name ((t.place? name).getD first.span) last.ty := by
  induction ps generalizing t with
  | nil => cases hfirst
  | cons p rest ih =>
      have hsound' := (growths_addFormal t .local p).edits.sound hsound
      show (Table.addFormals _ .local rest).value.2.Stands name _ _
      by_cases hp : p.spec ≠ .void ∧ p.name = name
      · rw [occurrences_cons_of_pos hp] at hfirst hlast
        obtain ⟨hspec, rfl⟩ := hp
        cases hfirst
        have hty : ((occurrences first.name rest).map (·.ty)).getLastD first.ty = last.ty := by
          rw [List.getLast?_cons, Option.some.injEq] at hlast
          rw [List.getLastD_eq_getLast?, List.getLast?_map, Option.getD_map, hlast]
        rw [← hty]
        exact (stands_addFormal_self t hspec).addFormals hsound'
      · rw [occurrences_cons_of_neg hp] at hfirst hlast
        have hrest := ih hsound' hfirst hlast
        rwa [place?_addFormal_of_ne hsound hp] at hrest

/-- The name of a header is no local name. -/
theorem locals_claim (t : Table) (h : Header) (role : Role) :
    (t.claim h role).value.2.1.locals = t.locals := by
  obtain ⟨writes, hvalue⟩ | ⟨callee, writes, -, hvalue⟩ := t.claim_cases h role
  · rw [hvalue]
    have hne : Scope.global ≠ .local := by decide
    exact bindings_insert_of_ne hne
  · rw [hvalue]

/-- Entering a header does to its parameters what declaring them does. -/
theorem stands_record (hsound : t.Sound) {header : Header} (isExtern : Bool) (role : Role)
    {first last : Param} (hfirst : (occurrences name header.params).head? = some first)
    (hlast : (occurrences name header.params).getLast? = some last) :
    (t.record header .local isExtern role).value.2.Stands name
      ((t.place? name).getD first.span) last.ty := by
  have hformals := stands_addFormals ((growths_claim t header role).edits.sound hsound) hfirst hlast
  rw [place?_congr (locals_claim t header role)] at hformals
  obtain ⟨-, hvalue, -⟩ := record_eq t header .local isExtern role
  obtain ⟨hglobal, -⟩ := claim_callee t header role
  rw [hvalue]
  split
  · obtain ⟨h, s, hscope, hs, hrest⟩ := hformals
    refine ⟨h, s, hscope, ?_, hrest⟩
    rw [get?_modify, if_neg ?_]
    · exact hs
    · rintro rfl
      rw [hglobal] at hscope
      cases hscope
  · exact hformals

end Table

namespace Env

variable {env : Env} {name : String} {span : Span} {scalar : Scalar} {h : Handle} {s : Symbol}

/-- The declaration of a scalar, or of an array of some size. -/
def Action.declaration (name : String) (span : Span) : (count? : Option Nat) → Action
  | none => .scalar name span
  | some count => .array name count span

/-- To declare a name of some type that is there is reported once; its symbol is rewritten. -/
theorem declareWith_of_lookup (hspec : env.frame.spec.scalar? = some scalar)
    (found : env.table.lookup name env.frame.scope = some h) (hs : env.table.get? h = some s)
    (give : Scalar → Symbol → Symbol) :
    (env.declareWith name span give).value =
        { env with table := env.table.modify h (give scalar) } ∧
      (env.declareWith name span give).reports = [⟨.redeclared name s.span, span⟩] := by
  obtain ⟨hvalue, hreports⟩ := Table.insert_of_lookup found hs span
  obtain ⟨hdeclared, hreported⟩ := declareWith_of_some hspec name span give
  rw [hdeclared, hreported, hvalue]
  exact ⟨rfl, hreports⟩

theorem act_declaration_of_lookup (hspec : env.frame.spec.scalar? = some scalar)
    (found : env.table.lookup name env.frame.scope = some h) (hs : env.table.get? h = some s)
    (count? : Option Nat) (span : Span) :
    (env.act (.declaration name span count?)).value =
        { env with table := env.table.modify h fun s => s.redeclared scalar count? } ∧
      (env.act (.declaration name span count?)).reports = [⟨.redeclared name s.span, span⟩] := by
  cases count? with
  | none => exact declareWith_of_lookup hspec found hs _
  | some count => exact declareWith_of_lookup hspec found hs _

/-- **A redeclaration is reported, and rewrites what it redeclares.** The declaration of a variable
of some type whose name the scope has is reported once, with the place of the first declaration. It
changes one symbol: that one takes the type of the redeclaration, and for an array its size, and is
no parameter from then on. So the tables are as they were only where this is what the symbol was
before. A parameter whose name the header repeats has its place from the first occurrence, or from
a local of the name, and its type from the last occurrence. -/
theorem redeclaration_retypes (steps : List Action) :
    let env := Env.empty.play steps
    (∀ name span count? scalar h, env.frame.spec.scalar? = some scalar →
      env.table.lookup name env.frame.scope = some h →
      ∃ s, env.table.get? h = some s ∧ s.name = name ∧
        let reached := env.act (.declaration name span count?)
        reached.reports = [⟨.redeclared name s.span, span⟩] ∧
          reached.value.frame = env.frame ∧
          (∀ h', reached.value.table.get? h' =
            if h = h' then some (s.redeclared scalar count?) else env.table.get? h') ∧
          (reached.value.table = env.table ↔ s.redeclared scalar count? = s)) ∧
      ∀ header role name first last, env.frame.header? = some header →
        (Table.occurrences name header.params).head? = some first →
        (Table.occurrences name header.params).getLast? = some last →
        (env.record role).value.2.table.Stands name
          ((env.table.place? name).getD first.span) last.ty := by
  intro env
  have hscoped : env.Scoped := scoped_play steps
  refine ⟨?_, ?_⟩
  · intro name span count? scalar h hspec found
    obtain ⟨-, s, hs, hname⟩ := Table.get?_of_lookup found
    obtain ⟨hvalue, hreports⟩ := act_declaration_of_lookup hspec found hs count? span
    refine ⟨s, hs, hname, ?_⟩
    dsimp only
    rw [hvalue, hreports]
    refine ⟨rfl, rfl, ?_, Table.modify_eq_self_iff hs⟩
    intro h'
    rw [Table.get?_modify]
    split
    · rename_i heq
      rw [← heq, hs]
      rfl
    · rfl
  · intro header role name first last hheader hfirst hlast
    rw [(record_of_some hheader).1, hscoped.scope_of_header hheader]
    exact Table.stands_record hscoped.sound env.frame.isExtern role hfirst hlast

/-- `int x; char x;` and `int f(int a, char a[]) {`: the types of `x` and of the parameter `a` are
those of the last declarations. -/
theorem first_declaration_lost :
    let x : Handle := ⟨.global, 0, 1⟩
    let declared := Env.empty.play [.spec .int, .scalar "x" ⟨4, 1⟩, .spec .char]
    let redeclared := declared.act (.scalar "x" ⟨12, 1⟩)
    let begun := Env.empty.play [.spec .int, .header "f" ⟨4, 1⟩, .param ⟨"a", .int, false, ⟨10, 1⟩⟩,
      .param ⟨"a", .char, true, ⟨18, 1⟩⟩, .beginBody]
    declared.table.lookup "x" declared.frame.scope = some x ∧
      redeclared.reports = [⟨.redeclared "x" ⟨4, 1⟩, ⟨12, 1⟩⟩] ∧
      redeclared.value.table ≠ declared.table ∧
      (declared.table.get? x).map (·.ty) = some .int ∧
      (redeclared.value.table.get? x).map (·.ty) = some .char ∧
      (begun.table.get? ⟨.local, 0, 1⟩).map (fun s => (s.name, s.ty)) =
        some ("a", .array .char) := by
  decide +kernel

end Env

end Cmm
