import Cmm.Proofs.Positions
import Cmm.Proofs.Redeclarations

/-!
# A prototype meets its definition

What is recorded of a prototype outlives its parameters, and a later definition of the name is
compared with it, parameter by parameter.

* `Param.Differ` — what there is to report on the parameters at a position.
* `Table.reports_addFormals_congr` — what is reported of the parameters themselves depends on the
  places of the local names only.
* `Env.definition_meets` — a definition is entered with its differences from the prototype in front
  of what its parameters bring.
* `Env.reconciliation_exact` — for headers without `void` parameters: what is reported, and what is
  known of the function from then on.
* `Env.repeated_header_drifts` — a definition with the very header of its prototype. As `void`
  parameters are recorded of neither, but counted in the definition, the two drift apart behind the
  first of them; `Env.repeated_header_reported` is a case.
-/

set_option autoImplicit false

namespace Cmm

/-! ## Differences -/

/-- The parameters of a prototype and of a definition differ at a position, counted from zero. The
report counts from one. -/
def Param.Differ (name : String) (declared defined : List Param) (i : Nat)
    (r : Report SemanticFault) : Prop :=
  ∃ p q, declared[i]? = some p ∧ defined[i]? = some q ∧ p.ty ≠ q.ty ∧
    r = ⟨.prototypeParameter name (i + 1) p.ty q.ty, q.span⟩

/-- The parameter as a signature keeps it. -/
def Param.formal (p : Param) : Formal := ⟨p.name, .local, true, p.ty⟩

namespace Header

/-- The report on a recorded parameter and one of the definition, if there is one. -/
def parameterDifference? (name : String) (position : Nat) (formal : Formal) (param : Param) :
    Option (Report SemanticFault) :=
  if formal.ty = param.ty then none
  else some ⟨.prototypeParameter name position formal.ty param.ty, param.span⟩

theorem parameterDifferences_eq (name : String) (position : Nat) (formals : List Formal)
    (params : List Param) : parameterDifferences name position formals params =
      compareFrom (parameterDifference? name) position formals params := by
  induction formals generalizing position params with
  | nil => cases params <;> rfl
  | cons formal formals ih =>
      cases params with
      | nil => rfl
      | cons param params =>
          rw [parameterDifferences, compareFrom, parameterDifference?, ih]
          split <;> rfl

theorem parameterDifference?_formal_eq_some_iff {name : String} {position : Nat} {p q : Param}
    {r : Report SemanticFault} : parameterDifference? name position p.formal q = some r ↔
      p.ty ≠ q.ty ∧ r = ⟨.prototypeParameter name position p.ty q.ty, q.span⟩ := by
  rw [parameterDifference?, Param.formal, eq_comm (a := r)]
  by_cases h : p.ty = q.ty <;> simp [h]

/-- The differences of the parameters are those of their positions. -/
theorem byPosition_parameterDifferences (name : String) (declared defined : List Param) :
    ByPosition (Param.Differ name declared defined)
      (parameterDifferences name 1 (declared.map Param.formal) defined) := by
  have hcompare := byPosition_compareFrom (parameterDifference? name) 1
    (declared.map Param.formal) defined
  rw [← parameterDifferences_eq] at hcompare
  convert hcompare using 3 with i r
  simp only [List.getElem?_map, Option.map_eq_some_iff]
  constructor
  · rintro ⟨p, q, hp, hq, hdiffer⟩
    rw [Nat.add_comm] at hdiffer
    exact ⟨p.formal, q, ⟨p, hp, rfl⟩, hq, parameterDifference?_formal_eq_some_iff.2 hdiffer⟩
  · rintro ⟨_, q, ⟨p, hp, rfl⟩, hq, hfind⟩
    rw [parameterDifference?_formal_eq_some_iff, Nat.add_comm] at hfind
    exact ⟨p, q, hp, hq, hfind⟩

/-- What is reported on a definition, part by part. -/
theorem reports_differences (h : Header) (sig : Signature) : (h.differences sig).reports =
    parameterDifferences h.name 1 sig.formals h.params ++
      ((if sig.formals.length = h.params.length then []
        else [⟨.prototypeArity h.name sig.formals.length h.params.length, h.span⟩]) ++
      ((if sig.result = h.result then [] else [⟨.prototypeResult h.name, h.span⟩]) ++
        if sig.isExtern then [⟨.externalDefined h.name, h.span⟩] else [])) := by
  have hif : ∀ (condition : Bool) (fault : SemanticFault), (Checked.reportIf condition fault
      h.span).reports = if condition then [⟨fault, h.span⟩] else [] := by
    intro condition fault
    cases condition <;> rfl
  rw [differences, Checked.reports_bind, Checked.reports_bind, Checked.reports_bind, hif, hif, hif]
  simp

theorem formals_signature (h : Header) (role : Role) (isExtern : Bool) :
    (h.signature role isExtern).formals = (h.params.filter (·.spec ≠ .void)).map Param.formal := rfl

end Header

namespace Table

variable {t t' : Table} {h : Header} {p : Param} {name : String} {span : Span}

/-! ## What parameters bring -/

/-- A local name that is there already is reported with its place. -/
theorem reports_insert_local (t : Table) (name : String) (span : Span) :
    (t.insert name .local span).reports =
      (t.place? name).toList.map fun place => ⟨.redeclared name place, span⟩ := by
  cases hf : t.lookup name .local with
  | some h =>
      obtain ⟨-, s, hs, -⟩ := get?_of_lookup hf
      rw [(insert_of_lookup hf hs span).2, place?, hf, Option.bind_some, hs]
      rfl
  | none =>
      rw [(insert_of_none (Option.map_eq_none_iff.1 hf)).2, place?, hf]
      rfl

theorem reports_addFormal (t : Table) (p : Param) : (t.addFormal .local p).reports =
    if p.spec = .void then [⟨.voidParameter p.name, p.span⟩]
    else (t.place? p.name).toList.map fun place => ⟨.redeclared p.name place, p.span⟩ := by
  rw [← reports_insert_local, addFormal]
  split
  · rfl
  · simp

/-- Behind a parameter its name is local, at the place where it was first. -/
theorem place?_addFormal (ht : t.Sound) (p : Param) (name : String) :
    (t.addFormal .local p).value.2.place? name =
      if p.spec ≠ .void ∧ p.name = name then some ((t.place? name).getD p.span)
      else t.place? name := by
  split
  · rename_i hp
    obtain ⟨hspec, rfl⟩ := hp
    have hsound := (growths_addFormal t .local p).edits.sound ht
    exact (stands_addFormal_self t hspec).place? hsound
  · rename_i hp
    exact place?_addFormal_of_ne ht hp

/-- What is reported of parameters depends on the places of the local names, and on nothing else
of the table. -/
theorem reports_addFormals_congr (ht : t.Sound) (ht' : t'.Sound)
    (same : ∀ name, t.place? name = t'.place? name) (ps : List Param) :
    (t.addFormals .local ps).reports = (t'.addFormals .local ps).reports := by
  induction ps generalizing t t' with
  | nil => rfl
  | cons p rest ih =>
      have hsound := (growths_addFormal t .local p).edits.sound ht
      have hsound' := (growths_addFormal t' .local p).edits.sound ht'
      have hplaces : ∀ name, (t.addFormal .local p).value.2.place? name =
          (t'.addFormal .local p).value.2.place? name := by
        intro name
        rw [place?_addFormal ht, place?_addFormal ht', same]
      show (t.addFormal .local p).reports ++ (_ ++ []) =
        (t'.addFormal .local p).reports ++ (_ ++ [])
      rw [reports_addFormal, reports_addFormal, same, List.append_nil, List.append_nil,
        ih hsound hsound' hplaces]

/-- Parameters that are not of type `void` are reported only where their names are local
already. -/
theorem redeclared_of_addFormals {ps : List Param} (no_void : ∀ p ∈ ps, p.spec ≠ .void)
    {r : Report SemanticFault} (hr : r ∈ (t.addFormals .local ps).reports) :
    ∃ name place, r.fault = .redeclared name place := by
  induction ps generalizing t with
  | nil => cases hr
  | cons p rest ih =>
      obtain ⟨hp, hrest⟩ := List.forall_mem_cons.1 no_void
      have hsplit : r ∈ (t.addFormal .local p).reports ++
          ((Table.addFormals _ .local rest).reports ++ []) := hr
      rw [List.append_nil] at hsplit
      rcases List.mem_append.1 hsplit with hhere | hlater
      · rw [reports_addFormal, if_neg hp] at hhere
        obtain ⟨place, -, rfl⟩ := List.mem_map.1 hhere
        exact ⟨p.name, place, rfl⟩
      · exact ih hrest hlater

theorem place?_of_no_locals (ht : t.Sound) (nothing_local : t.locals.entries = #[])
    (name : String) : t.place? name = none := by
  rw [Option.eq_none_iff_forall_ne_some]
  intro span hplace
  obtain ⟨h, s, hscope, hs, -⟩ := (place?_eq_some_iff ht).1 hplace
  obtain ⟨-, hentry⟩ := get?_eq_some_iff.1 hs
  rw [hscope] at hentry
  have : t.locals.entries[h.index]? = some s := hentry
  simp [nothing_local] at this

end Table

namespace Env

variable {env : Env} {header proto definition : Header} {sig : Signature}

/-! ## A prototype and its definition -/

/-- A prototype of a new name is recorded as it stands there. -/
theorem prototype_enters (hs : env.Scoped) (staged : env.frame.header? = some proto)
    (fresh : env.table.lookup proto.name .global = none) :
    (env.act .prototype).value.table.globals.signature? proto.name =
        some (proto.signature .prototype env.frame.isExtern) ∧
      (env.act .prototype).reports = (env.table.addFormals .local proto.params).reports := by
  have hnew : env.table.globals.find? proto.name = none := Option.map_eq_none_iff.1 fresh
  have henters := @enters_act env proto .prototype .prototype hs staged rfl
  constructor
  · generalize (env.act .prototype).value.table.globals = globals at henters ⊢
    cases henters with
    | added new quiet =>
        have hpush := @Bindings.signature?_push _ proto.name (hs.sound.bindings .global)
          (proto.symbol .prototype env.frame.isExtern) new
        exact hpush.trans (if_pos rfl)
    | completed known | refused known =>
        rw [hnew] at known
        cases known
  · obtain ⟨-, hreports⟩ := @act_of_role env .prototype .prototype rfl
    obtain ⟨-, hrecord⟩ := @record_of_some env proto .prototype staged
    obtain ⟨-, -, hparts⟩ :=
      Table.record_eq env.table proto .local env.frame.isExtern .prototype
    obtain ⟨-, hsilent⟩ := @Table.claim_of_none env.table proto .prototype hnew
    have hsound := (Table.growths_claim env.table proto .prototype).edits.sound hs.sound
    rw [hreports, hrecord, hs.scope_of_header staged, hparts, hsilent, List.nil_append]
    apply Table.reports_addFormals_congr hsound hs.sound
    exact Table.place?_congr (Table.locals_claim env.table proto .prototype)

/-- A function has a certain signature. -/
def Knows (env : Env) (name : String) (sig : Signature) : Prop :=
  ∃ h s, env.table.lookup name .global = some h ∧ env.table.get? h = some s ∧
    s.ty = .function ∧ s.signature? = some sig

/-- The definition of a function that has a prototype: first the differences are reported, then
what its parameters bring. The function takes the signature of the definition. -/
theorem definition_meets (hs : env.Scoped) (staged : env.frame.header? = some definition)
    (known : env.table.globals.signature? definition.name = some sig)
    (pending : sig.standing = .prototyped) :
    (env.act .beginBody).reports = (definition.differences sig).reports ++
        (env.table.addFormals .local definition.params).reports ∧
      (env.act .beginBody).value.Knows definition.name
        (definition.signature .definition env.frame.isExtern) := by
  have henters := @enters_act env definition .definition .beginBody hs staged rfl
  have hself := Bindings.Enters.signature?_self henters (hs.sound.bindings .global)
  obtain ⟨i, hi, hi'⟩ := Option.bind_eq_some_iff.1 known
  constructor
  · obtain ⟨-, hreports⟩ := @act_of_role env .definition .beginBody rfl
    obtain ⟨-, hrecord⟩ := @record_of_some env definition .definition staged
    obtain ⟨-, -, hparts⟩ :=
      Table.record_eq env.table definition .local env.frame.isExtern .definition
    rw [hreports, hrecord, hs.scope_of_header staged, hparts,
      Table.claim_completed hi known pending]
    simp
  · generalize hreached : (env.act .beginBody).value.table = reached at henters
    generalize hglobals : reached.globals = globals at henters
    cases henters with
    | added new =>
        rw [new] at hi
        cases hi
    | refused _ settled _ => cases settled sig known pending
    | @completed _ j _ found _ _ _ _ =>
        have hsound := hs.sound.bindings .global
        obtain ⟨s, hentry, -⟩ := (Bindings.find?_eq_some_iff hsound).1 found
        have hfind : (reached.bindings .global).find? definition.name = some j := by
          show reached.globals.find? _ = _
          rw [hglobals, ← found]
          apply Bindings.find?_modify hsound
          exact fun _ => rfl
        have hsymbol : reached.get? (reached.handle .global j) = some { s with
            ty := .function
            signature? := some (definition.signature .definition env.frame.isExtern) } := by
          rw [Table.get?_handle]
          show reached.globals.entries[j]? = _
          rw [hglobals, Bindings.getElem?_modify, if_pos rfl]
          exact congrArg _ hentry
        unfold Knows
        rw [hreached]
        exact ⟨reached.handle .global j, _, by rw [Table.lookup, hfind]; rfl, hsymbol, rfl, rfl⟩

/-- A function is declared, but not defined. -/
def Awaits (env : Env) (name : String) : Prop :=
  ∃ h s, env.table.lookup name .global = some h ∧ env.table.get? h = some s ∧
    s.standing = .prototyped

theorem Awaits.signature? {name : String} (awaits : env.Awaits name) :
    ∃ sig, env.table.globals.signature? name = some sig ∧ sig.standing = .prototyped := by
  obtain ⟨h, s, hlookup, hs, hstanding⟩ := awaits
  obtain ⟨i, hi, rfl⟩ := Option.map_eq_some_iff.1 hlookup
  rw [Table.get?_handle] at hs
  have hsignature : env.table.globals.signature? name = s.signature? :=
    Bindings.signature?_of_find? hi hs
  cases hsig : s.signature? with
  | none => simp [Symbol.standing, hsig] at hstanding
  | some sig =>
      rw [Symbol.standing, hsig] at hstanding
      exact ⟨sig, hsignature.trans hsig, hstanding⟩

/-- What is recorded of a prototype stays as long as no definition comes. -/
theorem prototype_survives (hs : env.Scoped) {name : String}
    (known : env.table.globals.signature? name = some sig) {later : List Action}
    (awaits : (env.play later).Awaits name) :
    (env.play later).table.globals.signature? name = some sig := by
  obtain ⟨sig', hsig', hadvance⟩ := advances_play hs later known
  obtain ⟨sig'', hsig'', hpending⟩ := awaits.signature?
  obtain rfl : sig' = sig'' := Option.some.inj (hsig'.symm.trans hsig'')
  rcases hadvance with rfl | ⟨-, hdefined⟩
  · exact hsig'
  · rw [hdefined] at hpending
    cases hpending

/-- **A definition is compared with what was recorded of its prototype**, however many steps lie
between them. -/
theorem definition_meets_prototype (hs : env.Scoped) (staged : env.frame.header? = some proto)
    (fresh : env.table.lookup proto.name .global = none) {later : List Action} {reached : Env}
    (leads : (env.act .prototype).value.play later = reached)
    (staged' : reached.frame.header? = some definition) (same_name : definition.name = proto.name)
    (awaits : reached.Awaits proto.name) :
    (reached.act .beginBody).reports =
        (definition.differences (proto.signature .prototype env.frame.isExtern)).reports ++
          (reached.table.addFormals .local definition.params).reports ∧
      (reached.act .beginBody).value.Knows definition.name
        (definition.signature .definition reached.frame.isExtern) := by
  subst leads
  obtain ⟨hknown, -⟩ := prototype_enters hs staged fresh
  have hdeclared := hs.act .prototype
  have hsurvives := prototype_survives hdeclared hknown awaits
  rw [← same_name] at hsurvives
  exact definition_meets (hdeclared.play later) staged' hsurvives rfl

end Env

/-- What is reported where a definition meets its prototype: the parameters that differ, by
position, then the number of parameters, the result, and whether the prototype was external.
Behind these come names that occur twice among the parameters of the definition. -/
def Header.Reconciled (proto definition : Header) (isExtern : Bool)
    (reports : List (Report SemanticFault)) : Prop :=
  ∃ mismatches repeated,
    ByPosition (Param.Differ definition.name proto.params definition.params) mismatches ∧
    (∀ r ∈ repeated, ∃ name place, r.fault = .redeclared name place) ∧
    reports = mismatches ++
      ((if proto.params.length = definition.params.length then []
        else [⟨.prototypeArity definition.name proto.params.length definition.params.length,
          definition.span⟩]) ++
      ((if proto.result = definition.result then []
        else [⟨.prototypeResult definition.name, definition.span⟩]) ++
      (if isExtern then [⟨.externalDefined definition.name, definition.span⟩] else []))) ++ repeated

namespace Env

/-- **Exactly the differences are reported.** A prototype is recorded of a new name, and later, in
whatever steps, a definition of the name, while nothing has defined it; neither has a parameter of
type `void`. Each position that both lists of parameters reach is reported once if the types differ
there, then once each that the numbers differ, that the results differ, and that the prototype was
external. That the name is declared twice is not reported. Whatever was, the function has the
signature of its definition from then on. -/
theorem reconciliation_exact (steps later : List Action) {proto definition : Header}
    (staged : (Env.empty.play steps).frame.header? = some proto)
    (fresh : (Env.empty.play steps).table.lookup proto.name .global = none)
    (no_void : ∀ p ∈ proto.params, p.spec ≠ .void) {reached : Env}
    (leads : ((Env.empty.play steps).act .prototype).value.play later = reached)
    (staged' : reached.frame.header? = some definition) (same_name : definition.name = proto.name)
    (awaits : reached.Awaits proto.name) (no_void' : ∀ p ∈ definition.params, p.spec ≠ .void) :
    proto.Reconciled definition (Env.empty.play steps).frame.isExtern
        (reached.act .beginBody).reports ∧
      (reached.act .beginBody).value.Knows definition.name
        (definition.signature .definition reached.frame.isExtern) := by
  obtain ⟨hreports, hknows⟩ := definition_meets_prototype (scoped_play steps) staged fresh leads
    staged' same_name awaits
  have hkept : proto.params.filter (·.spec ≠ .void) = proto.params := by
    simpa [List.filter_eq_self] using no_void
  have hmismatches := Header.byPosition_parameterDifferences definition.name proto.params
    definition.params
  have hrepeated : ∀ r ∈ (reached.table.addFormals .local definition.params).reports,
      ∃ name place, r.fault = .redeclared name place := fun _ =>
    Table.redeclared_of_addFormals no_void'
  constructor
  · refine ⟨_, _, hmismatches, hrepeated, ?_⟩
    rw [hreports, Header.reports_differences, Header.formals_signature, hkept, List.length_map]
    rfl
  · exact hknows

/-- `extern int f(int a, char b[]);` and `char f(int a, int b, int b) {`: all there is to report. -/
theorem reconciliation_exact_sample :
    let protoParams : List Param := [⟨"a", .int, false, ⟨17, 1⟩⟩, ⟨"b", .char, true, ⟨25, 1⟩⟩]
    let params : List Param := [⟨"a", .int, false, ⟨42, 1⟩⟩, ⟨"b", .int, false, ⟨49, 1⟩⟩,
      ⟨"b", .int, false, ⟨56, 1⟩⟩]
    let steps : List Action :=
      [.external, .spec .int, .header "f" ⟨11, 1⟩] ++ protoParams.map .param
    let later : List Action :=
      [.endPrototypes, .spec .char, .header "f" ⟨36, 1⟩] ++ params.map .param
    let reached := ((Env.empty.play steps).act .prototype).value.play later
    let proto : Header := ⟨"f", ⟨11, 1⟩, .int, protoParams⟩
    let definition : Header := ⟨"f", ⟨36, 1⟩, .char, params⟩
    ((reached.act .beginBody).reports.map (·.fault) =
        [.prototypeParameter "f" 2 (.array .char) .int, .prototypeArity "f" 2 3,
          .prototypeResult "f", .externalDefined "f", .redeclared "b" ⟨49, 1⟩]) ∧
      proto.Reconciled definition true (reached.act .beginBody).reports ∧
      (reached.act .beginBody).value.Knows "f" (definition.signature .definition false) := by
  intro protoParams params steps later reached proto definition
  have awaits : reached.Awaits "f" := by
    refine ⟨⟨.global, 0, 1⟩, proto.symbol .prototype true, ?_, ?_, rfl⟩
    · decide +kernel
    · decide +kernel
  have staged : (Env.empty.play steps).frame.header? = some proto := by
    decide +kernel
  have staged' : reached.frame.header? = some definition := by
    decide +kernel
  refine ⟨by decide +kernel, ?_⟩
  exact reconciliation_exact steps later staged (by decide +kernel) (by decide) rfl staged' rfl
    awaits (by decide)

/-- A list is compared with what is left of it without its `void` parameters: nothing differs just
where nothing is left out. -/
theorem drift_eq_nil_iff {name : String} {ps : List Param}
    {mismatches : List (Report SemanticFault)}
    (listed : ByPosition (Param.Differ name (ps.filter (·.spec ≠ .void)) ps) mismatches)
    (arity : Report SemanticFault) :
    (mismatches ++ if (ps.filter (·.spec ≠ .void)).length = ps.length then [] else [arity]) = [] ↔
      ∀ p ∈ ps, p.spec ≠ .void := by
  have hlength : (ps.filter (·.spec ≠ .void)).length = ps.length ↔ ∀ p ∈ ps, p.spec ≠ .void := by
    simp [List.length_filter_eq_length_iff]
  rw [List.append_eq_nil_iff, ← hlength]
  constructor
  · rintro ⟨-, hnil⟩
    by_contra hne
    rw [if_neg hne] at hnil
    cases hnil
  · intro hsame
    rw [if_pos hsame]
    have hkept : ps.filter (·.spec ≠ .void) = ps :=
      List.filter_sublist.eq_of_length hsame
    rw [hkept] at listed
    refine ⟨listed.eq_nil_iff.2 ?_, rfl⟩
    rintro i r ⟨p, q, hp, hq, hdiffer, -⟩
    rw [hp, Option.some.injEq] at hq
    exact hdiffer (congrArg Param.ty hq)

/-- **A header that is repeated in front of a body** is reported again as it was as a prototype, but
behind reports of its own: what is recorded of the prototype is without its `void` parameters, and
is compared with the whole list, by position and by number. So the reports are those of the
prototype just where no parameter is of type `void`; names that occur twice play no part. -/
theorem repeated_header_drifts (steps later : List Action) {header : Header}
    (staged : (Env.empty.play steps).frame.header? = some header)
    (internal : (Env.empty.play steps).frame.isExtern = false)
    (fresh : (Env.empty.play steps).table.lookup header.name .global = none)
    (idle : (Env.empty.play steps).table.locals.entries = #[]) {reached : Env}
    (leads : ((Env.empty.play steps).act .prototype).value.play later = reached)
    (staged' : reached.frame.header? = some header) (awaits : reached.Awaits header.name)
    (idle' : reached.table.locals.entries = #[]) :
    let first := (Env.empty.play steps).act .prototype
    let second := reached.act .beginBody
    let kept := header.params.filter (·.spec ≠ .void)
    ∃ mismatches, ByPosition (Param.Differ header.name kept header.params) mismatches ∧
      second.reports = mismatches ++ (if kept.length = header.params.length then []
        else [⟨.prototypeArity header.name kept.length header.params.length, header.span⟩]) ++
        first.reports ∧
      (second.reports = first.reports ↔ ∀ p ∈ header.params, p.spec ≠ .void) := by
  intro first second kept
  have hs := scoped_play steps
  have hreached : reached.Scoped := by
    rw [← leads]
    exact (hs.act .prototype).play later
  obtain ⟨hsecond, -⟩ := definition_meets_prototype hs staged fresh leads staged' rfl awaits
  obtain ⟨-, hfirst⟩ := prototype_enters hs staged fresh
  have hparams : (reached.table.addFormals .local header.params).reports = first.reports := by
    rw [hfirst]
    apply Table.reports_addFormals_congr hreached.sound hs.sound
    intro name
    rw [Table.place?_of_no_locals hreached.sound idle', Table.place?_of_no_locals hs.sound idle]
  have hmismatches := Header.byPosition_parameterDifferences header.name kept header.params
  have hreports : second.reports = Header.parameterDifferences header.name 1
      (kept.map Param.formal) header.params ++ (if kept.length = header.params.length then []
        else [⟨.prototypeArity header.name kept.length header.params.length, header.span⟩]) ++
        first.reports := by
    rw [hsecond, hparams, Header.reports_differences, Header.formals_signature, List.length_map]
    simp [Header.signature, internal, kept]
  refine ⟨_, hmismatches, hreports, ?_⟩
  rw [hreports, List.append_left_eq_self, drift_eq_nil_iff hmismatches]

/-- `int f(int a, void b, char b);` and the same header in front of a body. -/
theorem repeated_header_drifts_sample :
    let params : List Param := [⟨"a", .int, false, ⟨10, 1⟩⟩, ⟨"b", .void, false, ⟨18, 1⟩⟩,
      ⟨"b", .char, false, ⟨26, 1⟩⟩]
    let heading : List Action := [.spec .int, .header "f" ⟨4, 1⟩] ++ params.map .param
    let first := (Env.empty.play heading).act .prototype
    let second := (first.value.play (.endPrototypes :: heading)).act .beginBody
    let kept := params.filter (·.spec ≠ .void)
    ∃ mismatches, ByPosition (Param.Differ "f" kept params) mismatches ∧
      second.reports = mismatches ++ (if kept.length = params.length then []
        else [⟨.prototypeArity "f" kept.length params.length, ⟨4, 1⟩⟩]) ++ first.reports ∧
      (second.reports = first.reports ↔ ∀ p ∈ params, p.spec ≠ .void) := by
  intro params heading first second kept
  have staged : (Env.empty.play heading).frame.header? = some ⟨"f", ⟨4, 1⟩, .int, params⟩ := by
    decide +kernel
  have awaits : (first.value.play (.endPrototypes :: heading)).Awaits "f" := by
    refine ⟨⟨.global, 0, 1⟩, Header.symbol ⟨"f", ⟨4, 1⟩, .int, params⟩ .prototype false, ?_, ?_,
      rfl⟩
    · decide +kernel
    · decide +kernel
  exact repeated_header_drifts heading (.endPrototypes :: heading) staged (by decide +kernel)
    (by decide +kernel) (by decide +kernel) rfl (by decide +kernel) awaits (by decide +kernel)

/-- `int f(int a, void b);` and the same header in front of a body: the definition is reported to
have one parameter more than its prototype. -/
theorem repeated_header_reported :
    let heading : List Action := [.spec .int, .header "f" ⟨4, 1⟩,
      .param ⟨"a", .int, false, ⟨10, 1⟩⟩, .param ⟨"b", .void, false, ⟨18, 1⟩⟩]
    let first := (Env.empty.play heading).act .prototype
    let again := first.value.play (.endPrototypes :: heading)
    let second := again.act .beginBody
    again.frame.header? = (Env.empty.play heading).frame.header? ∧
      first.reports = [⟨.voidParameter "b", ⟨18, 1⟩⟩] ∧
      second.reports = [⟨.prototypeArity "f" 1 2, ⟨4, 1⟩⟩, ⟨.voidParameter "b", ⟨18, 1⟩⟩] ∧
      second.reports ≠ first.reports := by
  decide +kernel

end Env

end Cmm
