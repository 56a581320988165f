import Cmm.Proofs.Actions
import Cmm.Proofs.Table.Names

/-!
# The signatures of a program

* `Bindings.signature?` — what a scope says of a function by its name.
* `Header.signature` — what a header says of its function: its result, its parameters other than
  those of type `void`, and whether it is external.
* `Bindings.Enters`, `Table.enters_record` — to enter a header adds a function, completes a
  prototype, or is refused; nothing else of the program changes.
* `Env.signatures_advance` — in any order of steps, signatures come and change only where a staged
  header is entered. A prototype can become a definition; a definition stays as it is.
-/

set_option autoImplicit false

namespace Cmm

namespace Bindings

variable {b : Bindings} {name : String}

/-- The signature of a name; a variable has none. -/
def signature? (b : Bindings) (name : String) : Option Signature :=
  (b.find? name).bind fun i => b.entries[i]?.bind (·.signature?)

theorem signature?_of_find? {i : Nat} {s : Symbol} (hi : b.find? name = some i)
    (hs : b.entries[i]? = some s) : b.signature? name = s.signature? := by
  unfold signature?
  rw [hi, Option.bind_some, hs, Option.bind_some]

theorem find?_push (hb : b.Sound) {s : Symbol} (fresh : b.find? s.name = none) :
    (b.push s).find? name = if s.name = name then some b.entries.size else b.find? name := by
  have hlen : b.names.length = b.entries.size := by simp [names]
  have hnew := (find?_eq_none_iff_names hb).1 fresh
  apply Option.ext
  intro i
  rw [find?_eq_some_iff_names (hb.push fresh), names_push, List.getElem?_append]
  split
  · rename_i hi
    split
    · rename_i hn
      have hne : b.names[i]? ≠ some name := by
        intro h
        rw [hn] at hnew
        exact hnew (List.mem_of_getElem? h)
      simp only [hne, false_iff, Option.some.injEq]
      omega
    · rw [find?_eq_some_iff_names hb]
  · rename_i hi
    have hold : b.find? name ≠ some i := by
      rw [Ne, find?_eq_some_iff_names hb]
      intro h
      exact hi (List.getElem?_eq_some_iff.1 h).1
    rw [List.getElem?_singleton]
    split
    · split
      · simp only [Option.some.injEq]
        constructor
        · intro
          omega
        · intro
          assumption
      · rename_i hn
        simp only [Option.some.injEq, hn, hold]
    · split
      · simp only [reduceCtorEq, false_iff, Option.some.injEq]
        omega
      · simp only [reduceCtorEq, hold]

theorem find?_modify (hb : b.Sound) (index : Nat) {f : Symbol → Symbol}
    (keeps : ∀ s, (f s).name = s.name) : (b.modify index f).find? name = b.find? name := by
  apply Option.ext
  intro i
  rw [find?_eq_some_iff_names (hb.modify index keeps), names_modify index keeps,
    find?_eq_some_iff_names hb]

theorem signature?_push (hb : b.Sound) {s : Symbol} (fresh : b.find? s.name = none) :
    (b.push s).signature? name = if s.name = name then s.signature? else b.signature? name := by
  unfold signature?
  rw [find?_push hb fresh]
  split
  · simp [entries_push]
  · cases hi : b.find? name with
    | none => rfl
    | some i =>
        obtain ⟨s', hs', -⟩ := (find?_eq_some_iff hb).1 hi
        have hlt := (Array.getElem?_eq_some_iff.1 hs').1
        rw [Option.bind_some, Option.bind_some, entries_push, Array.getElem?_push,
          if_neg (by omega)]

/-- A change that keeps signatures keeps them by name. -/
theorem signature?_modify (hb : b.Sound) (index : Nat) {f : Symbol → Symbol}
    (keeps : ∀ s, (f s).name = s.name) (same : ∀ s, (f s).signature? = s.signature?) :
    (b.modify index f).signature? name = b.signature? name := by
  unfold signature?
  rw [find?_modify hb index keeps]
  cases b.find? name with
  | none => rfl
  | some i =>
      rw [Option.bind_some, Option.bind_some, getElem?_modify]
      split
      · cases b.entries[i]? <;> simp [same]
      · rfl

/-- To rewrite the symbol of one name leaves the signatures of the others. -/
theorem signature?_modify_of_ne (hb : b.Sound) {index : Nat} {f : Symbol → Symbol}
    (keeps : ∀ s, (f s).name = s.name) {other : String} (hi : b.find? other = some index)
    (hne : name ≠ other) : (b.modify index f).signature? name = b.signature? name := by
  unfold signature?
  rw [find?_modify hb index keeps]
  cases hj : b.find? name with
  | none => rfl
  | some j =>
      have : index ≠ j := by
        rintro rfl
        rw [find?_eq_some_iff_names hb] at hi hj
        rw [hi, Option.some.injEq] at hj
        exact hne hj.symm
      rw [Option.bind_some, Option.bind_some, getElem?_modify, if_neg this]

theorem signature?_modify_self (hb : b.Sound) {index : Nat} {f : Symbol → Symbol}
    (keeps : ∀ s, (f s).name = s.name) {sig : Signature}
    (gives : ∀ s, (f s).signature? = some sig) (hi : b.find? name = some index) :
    (b.modify index f).signature? name = some sig := by
  obtain ⟨s, hs, -⟩ := (find?_eq_some_iff hb).1 hi
  have hf : (b.modify index f).entries[index]? = some (f s) := by
    rw [getElem?_modify, if_pos rfl, hs]
    rfl
  rw [signature?_of_find? ((find?_modify hb index keeps).trans hi) hf, gives]

/-- To rewrite a new symbol is to add it as it is rewritten. -/
theorem modify_push (s : Symbol) {f : Symbol → Symbol} (keeps : (f s).name = s.name) :
    (b.push s).modify b.entries.size f = b.push (f s) := by
  have hentries : (b.entries.push s).modify b.entries.size f = b.entries.push (f s) := by
    apply Array.ext_getElem?
    intro i
    rw [Array.getElem?_modify, Array.getElem?_push, Array.getElem?_push]
    split
    · rename_i heq
      rw [if_pos heq.symm, if_pos heq.symm]
      rfl
    · rename_i hne
      rw [if_neg (Ne.symm hne), if_neg (Ne.symm hne)]
  unfold modify push
  simp only [hentries, keeps]

end Bindings

/-- What a header says of its function. Its parameters are those that are not of type `void`, in
their order, each with its name and the type it has in the function. -/
def Header.signature (h : Header) (role : Role) (isExtern : Bool) : Signature :=
  ⟨h.result, (h.params.filter (·.spec ≠ .void)).map fun p => ⟨p.name, .local, true, p.ty⟩,
    role.standing, isExtern⟩

/-- The symbol of a function that a header brings in. -/
def Header.symbol (h : Header) (role : Role) (isExtern : Bool) : Symbol :=
  ⟨h.name, .global, .function, none, false, some (h.signature role isExtern), h.span⟩

/-- The reports of some that say that a function is declared or defined twice. -/
def Report.redefinitions (reports : List (Report SemanticFault)) : List (Report SemanticFault) :=
  reports.filter fun r => r.fault.code = (SemanticFault.redefined "").code

/-- What entering a header does to the symbols of the program, and what is reported, by what is
known of its name. -/
inductive Bindings.Enters (b : Bindings) (h : Header) (role : Role) (isExtern : Bool) :
    Bindings → List (Report SemanticFault) → Prop
  /-- A new name gets the symbol of the header. -/
  | added {reports : List (Report SemanticFault)} (new : b.find? h.name = none)
      (quiet : Report.redefinitions reports = []) :
      Enters b h role isExtern (b.push (h.symbol role isExtern)) reports
  /-- A prototype gets the signature of its definition. -/
  | completed {reports : List (Report SemanticFault)} {i : Nat} {sig : Signature}
      (known : b.find? h.name = some i) (declared : b.signature? h.name = some sig)
      (pending : sig.standing = .prototyped) (defines : role = .definition)
      (quiet : Report.redefinitions reports = []) :
      Enters b h role isExtern (b.modify i fun s =>
        { s with ty := .function, signature? := some (h.signature role isExtern) }) reports
  /-- Any other header is reported once and changes nothing of the program. -/
  | refused {reports : List (Report SemanticFault)} {i : Nat} (known : b.find? h.name = some i)
      (settled : ∀ sig, b.signature? h.name = some sig → sig.standing = .prototyped →
        role = .prototype)
      (reported : Report.redefinitions reports = [⟨.redefined h.name, h.span⟩]) :
      Enters b h role isExtern b reports

namespace Bindings.Enters

variable {b b' : Bindings} {h : Header} {role : Role} {isExtern : Bool}
  {reports : List (Report SemanticFault)}

/-- A header says nothing of other functions. -/
theorem signature?_of_ne (he : b.Enters h role isExtern b' reports) (hb : b.Sound) {name : String}
    (hne : name ≠ h.name) : b'.signature? name = b.signature? name := by
  cases he with
  | added new => exact (signature?_push hb new).trans (if_neg (Ne.symm hne))
  | completed known => exact signature?_modify_of_ne hb (fun _ => rfl) known hne
  | refused => rfl

/-- A header that is not refused gives its function the signature that it says. -/
theorem signature?_self (he : b.Enters h role isExtern b' reports) (hb : b.Sound)
    (quiet : Report.redefinitions reports = []) :
    b'.signature? h.name = some (h.signature role isExtern) := by
  cases he with
  | added new => exact (signature?_push hb new).trans (if_pos rfl)
  | completed known =>
      refine signature?_modify_self hb ?_ ?_ known
      · exact fun _ => rfl
      · exact fun _ => rfl
  | refused known settled reported =>
      rw [reported] at quiet
      cases quiet

end Bindings.Enters

namespace Table

variable {t : Table} {h : Header} {role : Role} {ps : List Param}

/-! ## Parameters -/

theorem globals_addFormal (t : Table) (p : Param) :
    (t.addFormal .local p).value.2.globals = t.globals := by
  unfold addFormal
  split
  · rfl
  · show ((Table.modify _ _ _).bindings .global) = t.bindings .global
    have hne : Scope.local ≠ .global := by decide
    rw [bindings_modify_of_ne (by rwa [scope_insert]), bindings_insert_of_ne hne]

theorem globals_addFormals (t : Table) (ps : List Param) :
    (t.addFormals .local ps).value.2.globals = t.globals := by
  induction ps generalizing t with
  | nil => rfl
  | cons p rest ih => exact (ih _).trans (globals_addFormal t p)

theorem value_addFormal (ht : t.Placed) (p : Param) : (t.addFormal .local p).value.1 =
    if p.spec = .void then none else some ⟨p.name, .local, true, p.ty⟩ := by
  unfold addFormal
  split
  · rfl
  · have hscope := scope_insert (t := t) p.name .local p.span
    have hplaced := ht.insert p.name .local p.span
    obtain ⟨s, hs, hn⟩ := get?_insert_self (t := t) p.name .local p.span
    show (Table.get? (Table.modify _ _ _) _).map Symbol.formal = _
    rw [get?_modify, if_pos rfl, hs]
    have : s.scope = .local := (hplaced _ s hs).trans hscope
    simp [Symbol.formal, hn, this]

/-- **The parameters of a signature** are those that are not of type `void`, whether or not a name
occurs among them twice. -/
theorem value_addFormals (ht : t.Placed) (ps : List Param) : (t.addFormals .local ps).value.1 =
    (ps.filter (·.spec ≠ .void)).map fun p => ⟨p.name, .local, true, p.ty⟩ := by
  induction ps generalizing t with
  | nil => rfl
  | cons p rest ih =>
      have hrest := ih ((growths_addFormal t .local p).edits.placed ht)
      show (t.addFormal .local p).value.1.toList ++ (Table.addFormals _ _ rest).value.1 = _
      rw [hrest, value_addFormal ht]
      by_cases hp : p.spec = .void <;> simp [hp]

theorem redefinitions_addFormals (t : Table) (ps : List Param) :
    Report.redefinitions (t.addFormals .local ps).reports = [] := by
  have hone : ∀ (t : Table) (p : Param),
      Report.redefinitions (t.addFormal .local p).reports = [] := by
    intro t p
    unfold addFormal
    split
    · rfl
    · cases hf : (t.bindings .local).find? p.name with
      | none =>
          rw [Checked.reports_bind, (insert_of_none hf).2]
          rfl
      | some i =>
          unfold insert
          rw [hf]
          rfl
  induction ps generalizing t with
  | nil => rfl
  | cons p rest ih =>
      have hrest := ih (t.addFormal .local p).value.2
      have hp := hone t p
      unfold Report.redefinitions at hp hrest ⊢
      show List.filter _ ((t.addFormal .local p).reports ++
        ((Table.addFormals _ _ rest).reports ++ [])) = []
      rw [List.append_nil, List.filter_append, hp, hrest]
      rfl

/-! ## Headers -/

theorem globals_modify_handle {i : Nat} {f : Symbol → Symbol} :
    (t.modify (t.handle .global i) f).globals = t.globals.modify i f := by
  show (t.modify (t.handle .global i) f).bindings .global = _
  unfold Table.modify
  rw [bindings_update]
  exact (if_pos rfl).trans (if_pos rfl)

theorem redefinitions_differences (h : Header) (sig : Signature) :
    Report.redefinitions (h.differences sig).reports = [] := by
  have hparams : ∀ (position : Nat) (formals : List Formal) (params : List Param),
      Report.redefinitions (Header.parameterDifferences h.name position formals params) = [] := by
    intro position formals params
    induction formals generalizing position params with
    | nil => rfl
    | cons formal formals ih =>
        cases params with
        | nil => rfl
        | cons param params =>
            unfold Header.parameterDifferences
            dsimp only
            split
            · exact ih _ _
            · exact ih _ _
  have hif : ∀ (condition : Bool) (fault : SemanticFault) (span : Span), fault.code ≠ "E404" →
      Report.redefinitions (Checked.reportIf condition fault span).reports = [] := by
    intro condition fault span hcode
    cases condition with
    | false => rfl
    | true =>
        apply List.filter_cons_of_neg
        rw [decide_eq_true_eq]
        exact hcode
  unfold Report.redefinitions at hparams hif ⊢
  unfold Header.differences
  simp only [Checked.reports_bind, List.filter_append, hparams, List.nil_append]
  rw [hif _ _ _ (by simp [SemanticFault.code]), hif _ _ _ (by simp [SemanticFault.code]),
    hif _ _ _ (by simp [SemanticFault.code])]
  rfl

theorem redefinitions_append (reports reports' : List (Report SemanticFault)) :
    Report.redefinitions (reports ++ reports') =
      Report.redefinitions reports ++ Report.redefinitions reports' := List.filter_append ..

theorem claim_of_none (new : t.globals.find? h.name = none) :
    (t.claim h role).value = (t.handle .global t.globals.entries.size,
      t.update .global (·.push (.fresh h.name .global h.span)), true) ∧
      (t.claim h role).reports = [] := by
  have hl : t.lookup h.name .global = none := by
    unfold lookup
    rw [show t.bindings .global = t.globals from rfl, new]
    rfl
  have hinsert := @insert_of_none t h.name .global h.span new
  unfold claim
  rw [hl]
  simp only [Checked.value_bind, Checked.reports_bind, hinsert.1, hinsert.2]
  exact ⟨rfl, rfl⟩

/-- A known name: what is known of it decides whether the header may write. -/
theorem claim_of_some {i : Nat} (known : t.globals.find? h.name = some i) :
    t.lookup h.name .global = some (t.handle .global i) ∧
      (t.get? (t.handle .global i)).bind (·.signature?) = t.globals.signature? h.name := by
  unfold lookup Bindings.signature?
  rw [show t.bindings .global = t.globals from rfl, known, get?_handle]
  exact ⟨rfl, rfl⟩

theorem claim_completed {i : Nat} {sig : Signature} (known : t.globals.find? h.name = some i)
    (declared : t.globals.signature? h.name = some sig) (pending : sig.standing = .prototyped) :
    t.claim h .definition = do
      h.differences sig
      return (t.handle .global i, t, true) := by
  obtain ⟨hl, hsig⟩ := claim_of_some known
  unfold claim
  simp only [hl, hsig, declared, pending, and_self, if_pos]

theorem claim_refused {i : Nat} (known : t.globals.find? h.name = some i)
    (settled : ∀ sig, t.globals.signature? h.name = some sig → sig.standing = .prototyped →
      role = .prototype) :
    t.claim h role = do
      .report (.redefined h.name) h.span
      return (t.handle .global i, t, false) := by
  obtain ⟨hl, hsig⟩ := claim_of_some known
  unfold claim
  simp only [hl, hsig]
  cases hs : t.globals.signature? h.name with
  | none => rfl
  | some sig =>
      dsimp only
      split
      · rename_i hwrites
        have := settled sig hs hwrites.1
        rw [hwrites.2] at this
        cases this
      · rfl

/-- The function takes its signature whatever its parameters are. -/
theorem globals_sign (t : Table) (ps : List Param) (i : Nat) (f : Symbol → Symbol) :
    ((t.addFormals .local ps).value.2.modify (t.handle .global i) f).globals =
      t.globals.modify i f := by
  have hsame := globals_addFormals t ps
  have hhandle : t.handle .global i = (t.addFormals .local ps).value.2.handle .global i := by
    show Handle.mk _ _ t.globals.generation = Handle.mk _ _ (Table.globals _).generation
    rw [hsame]
  rw [hhandle, globals_modify_handle, hsame]

/-- **A header enters the program in one of three ways.** -/
theorem enters_record (hp : t.Placed) (h : Header) (isExtern : Bool) (role : Role) :
    let entered := t.record h .local isExtern role
    t.globals.Enters h role isExtern entered.value.2.globals entered.reports := by
  obtain ⟨-, hvalue, hreports⟩ := record_eq t h .local isExtern role
  have hquiet : Report.redefinitions (t.record h .local isExtern role).reports =
      Report.redefinitions (t.claim h role).reports := by
    rw [hreports, redefinitions_append, redefinitions_addFormals, List.append_nil]
  cases hf : t.globals.find? h.name with
  | none =>
      obtain ⟨hclaim, hnone⟩ := @claim_of_none t h role hf
      have hplaced := hp.insert h.name .global h.span
      rw [(@insert_of_none t h.name .global h.span hf).1] at hplaced
      have hglobals : (t.record h .local isExtern role).value.2.globals =
          t.globals.push (h.symbol role isExtern) := by
        rw [hvalue, hclaim, if_pos rfl, value_addFormals hplaced]
        exact (globals_sign _ h.params _ _).trans (Bindings.modify_push _ rfl)
      dsimp only
      rw [hglobals]
      rw [hnone] at hquiet
      exact .added hf hquiet
  | some i =>
      by_cases hwrites : role = .definition ∧
          ∃ sig, t.globals.signature? h.name = some sig ∧ sig.standing = .prototyped
      · obtain ⟨rfl, sig, hsig, hpending⟩ := hwrites
        have hclaim := claim_completed hf hsig hpending
        have hwritten : (t.claim h .definition).value = (t.handle .global i, t, true) := by
          rw [hclaim]
          rfl
        rw [hclaim, Checked.reports_bind, redefinitions_append, redefinitions_differences]
          at hquiet
        dsimp only
        rw [hvalue, hwritten, if_pos rfl, value_addFormals hp, globals_sign]
        exact .completed hf hsig hpending rfl hquiet
      · have hsettled : ∀ sig, t.globals.signature? h.name = some sig →
            sig.standing = .prototyped → role = .prototype := by
          intro sig hsig hpending
          cases role with
          | prototype => rfl
          | definition => exact absurd ⟨rfl, sig, hsig, hpending⟩ hwrites
        have hclaim := claim_refused hf hsettled
        have hkept : (t.claim h role).value = (t.handle .global i, t, false) := by
          rw [hclaim]
          rfl
        rw [hclaim] at hquiet
        dsimp only
        rw [hvalue, hkept, if_neg Bool.false_ne_true, globals_addFormals]
        exact .refused hf hsettled hquiet

/-! ## Variables -/

theorem signature?_insert (ht : t.Chained) (name : String) (scope : Scope) (span : Span)
    (other : String) : (t.insert name scope span).value.2.globals.signature? other =
      t.globals.signature? other := by
  show ((t.insert name scope span).value.2.bindings .global).signature? other = _
  cases hf : (t.bindings scope).find? name with
  | some i =>
      rw [(insert_of_some hf).1]
      rfl
  | none =>
      rw [(insert_of_none hf).1, bindings_update]
      split
      · rename_i hscope
        subst hscope
        have hnone : (t.bindings .global).signature? name = none := by
          unfold Bindings.signature?
          rw [hf]
          rfl
        rw [Bindings.signature?_push (ht .global) hf]
        split
        · rename_i hn
          subst hn
          exact hnone.symm
        · rfl
      · rfl

theorem signature?_modify (ht : t.Chained) (handle : Handle) {f : Symbol → Symbol}
    (keeps : ∀ s, (f s).name = s.name) (same : ∀ s, (f s).signature? = s.signature?)
    (other : String) :
    (t.modify handle f).globals.signature? other = t.globals.signature? other := by
  show ((t.modify handle f).bindings .global).signature? other = _
  unfold Table.modify
  rw [bindings_update]
  split
  · split
    · exact Bindings.signature?_modify (ht .global) _ keeps same
    · rfl
  · rfl

end Table

namespace Env

variable {env : Env} {header : Header} {role : Role} {action : Action}

/-- The steps that enter the staged header, and what each enters it as. -/
def Action.role? : Action → Option Role
  | .prototype => some .prototype
  | .beginBody => some .definition
  | _ => none

/-- A step that enters the staged header does to the program what entering it does. -/
theorem act_of_role (hrole : action.role? = some role) :
    (env.act action).value.table.globals = (env.record role).value.2.table.globals ∧
      (env.act action).reports = (env.record role).reports := by
  cases action with
  | prototype | beginBody =>
      cases hrole
      exact ⟨rfl, List.append_nil _⟩
  | spec | external | header | param | endPrototypes | scalar | array | finish | tree =>
      cases hrole

theorem enters_act (hs : env.Scoped) (hsome : env.frame.header? = some header)
    (hrole : action.role? = some role) :
    env.table.globals.Enters header role env.frame.isExtern
      (env.act action).value.table.globals (env.act action).reports := by
  obtain ⟨hglobals, hreports⟩ := @act_of_role env role action hrole
  obtain ⟨hvalue, hrecord⟩ := @record_of_some env header role hsome
  rw [hglobals, hreports, hvalue, hrecord, hs.scope_of_header hsome]
  exact Table.enters_record hs.placed header env.frame.isExtern role

/-- A declaration of a variable leaves the signatures, also that of a function of its name. -/
theorem signature?_declareWith (hs : env.Scoped) (name : String) (span : Span)
    {give : Scalar → Symbol → Symbol} (keeps : ∀ scalar s, (give scalar s).name = s.name)
    (same : ∀ scalar s, (give scalar s).signature? = s.signature?) (other : String) :
    (env.declareWith name span give).value.table.globals.signature? other =
      env.table.globals.signature? other := by
  have hchained : env.table.Chained := hs.sound.bindings
  cases hspec : env.frame.spec.scalar? with
  | none => rw [(declareWith_of_none hspec name span give).1]
  | some scalar =>
      have hmodify := Table.signature?_modify (hchained.insert name env.frame.scope span)
        (env.table.insert name env.frame.scope span).value.1 (keeps scalar) (same scalar) other
      rw [(declareWith_of_some hspec name span give).1]
      exact hmodify.trans (Table.signature?_insert hchained name env.frame.scope span other)

/-- Signatures come and change only where the staged header is entered. -/
theorem signature?_act (hs : env.Scoped)
    (hidle : env.frame.header? = none ∨ action.role? = none) (name : String) :
    (env.act action).value.table.globals.signature? name =
      env.table.globals.signature? name := by
  cases action with
  | prototype | beginBody =>
      rcases hidle with hnone | hrole
      · rw [(act_of_role rfl).1, record_of_none hnone]
        rfl
      · cases hrole
  | scalar name' span | array name' count span =>
      refine signature?_declareWith hs name' span ?_ ?_ name
      · exact fun _ _ => rfl
      · exact fun _ _ => rfl
  | spec | external | header | param | endPrototypes | finish | tree => rfl

/-- How far a signature may go: a prototype becomes a definition, and nothing else changes. -/
def Advances (sig sig' : Signature) : Prop :=
  sig' = sig ∨ sig.standing = .prototyped ∧ sig'.standing = .defined

theorem Advances.trans {sig sig' sig'' : Signature} (h : Advances sig sig')
    (h' : Advances sig' sig'') : Advances sig sig'' := by
  rcases h with rfl | ⟨hold, hnew⟩
  · exact h'
  · rcases h' with rfl | ⟨hold', -⟩
    · exact .inr ⟨hold, hnew⟩
    · rw [hnew] at hold'
      cases hold'

/-- A header leaves a signature as it is or completes it. -/
theorem advances_of_enters {b b' : Bindings} {isExtern : Bool}
    {reports : List (Report SemanticFault)} (hb : b.Sound)
    (he : b.Enters header role isExtern b' reports) {name : String} {sig : Signature}
    (hsig : b.signature? name = some sig) :
    ∃ sig', b'.signature? name = some sig' ∧ Advances sig sig' := by
  by_cases hname : name = header.name
  · subst hname
    have hself := he.signature?_self hb
    cases he with
    | added new =>
        unfold Bindings.signature? at hsig
        rw [new] at hsig
        cases hsig
    | completed known declared pending defines quiet =>
        rw [hsig] at declared
        cases declared
        subst defines
        exact ⟨_, hself quiet, .inr ⟨pending, rfl⟩⟩
    | refused => exact ⟨sig, hsig, .inl rfl⟩
  · exact ⟨sig, (he.signature?_of_ne hb hname).trans hsig, .inl rfl⟩

theorem advances_act (hs : env.Scoped) (action : Action) {name : String} {sig : Signature}
    (hsig : env.table.globals.signature? name = some sig) :
    ∃ sig', (env.act action).value.table.globals.signature? name = some sig' ∧
      Advances sig sig' := by
  cases hrole : action.role? with
  | none => exact ⟨sig, (signature?_act hs (.inr hrole) name).trans hsig, .inl rfl⟩
  | some role =>
      cases hheader : env.frame.header? with
      | none => exact ⟨sig, (signature?_act hs (.inl hheader) name).trans hsig, .inl rfl⟩
      | some header =>
          exact advances_of_enters (hs.sound.bindings .global) (enters_act hs hheader hrole) hsig

theorem advances_play (hs : env.Scoped) (later : List Action) {name : String} {sig : Signature}
    (hsig : env.table.globals.signature? name = some sig) :
    ∃ sig', (env.play later).table.globals.signature? name = some sig' ∧ Advances sig sig' := by
  induction later generalizing env sig with
  | nil => exact ⟨sig, hsig, .inl rfl⟩
  | cons action rest ih =>
      obtain ⟨sig₁, hsig₁, hadvance⟩ := advances_act hs action hsig
      obtain ⟨sig₂, hsig₂, hadvance'⟩ := ih (hs.act action) hsig₁
      exact ⟨sig₂, hsig₂, hadvance.trans hadvance'⟩

/-- **The signatures of a program**, whatever steps come in whatever order. A staged header that is
entered adds its function, completes a prototype, or is refused; the function then has exactly the
signature that the header says, unless it is refused. No other step touches a signature. So a
prototype can at most be completed, and a definition stays as it is. -/
theorem signatures_advance (steps : List Action) :
    let env := Env.empty.play steps
    (∀ action header role, env.frame.header? = some header → action.role? = some role →
      let reached := env.act action
      let globals := reached.value.table.globals
      env.table.globals.Enters header role env.frame.isExtern globals reached.reports ∧
        (Report.redefinitions reached.reports = [] →
          globals.signature? header.name = some (header.signature role env.frame.isExtern)) ∧
        ∀ name ≠ header.name, globals.signature? name = env.table.globals.signature? name) ∧
      (∀ action, env.frame.header? = none ∨ action.role? = none → ∀ name,
        (env.act action).value.table.globals.signature? name =
          env.table.globals.signature? name) ∧
      ∀ later name sig, env.table.globals.signature? name = some sig → ∃ sig',
        (env.play later).table.globals.signature? name = some sig' ∧ Advances sig sig' := by
  intro env
  have hs : env.Scoped := scoped_play steps
  have hb := hs.sound.bindings .global
  refine ⟨?_, ?_, ?_⟩
  · intro action header role hheader hrole
    have hentered := enters_act hs hheader hrole
    exact ⟨hentered, hentered.signature?_self hb,
      fun name hne => hentered.signature?_of_ne hb hne⟩
  · intro action hidle name
    exact signature?_act hs hidle name
  · intro later name sig hsig
    exact advances_play hs later hsig

end Env

end Cmm
