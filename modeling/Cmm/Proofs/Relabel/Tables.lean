import Cmm.Proofs.Relabel.Phrases
import Cmm.Proofs.Table

/-!
# Symbol tables under other names and places

Other names fall into other buckets, so the chains of two tables differ where their symbols are the
same but for names and places. What is the same is the order of declaration.

* `Checked.Agrees` — two checked values are related, and the reports on one are the changed reports
  on the other.
* `Table.Mirrors` — the symbols of one table are the changed symbols of another, index by index.
* `Mirrors.lookup`, `Mirrors.get?` — such tables give the same handle to a name and the name it goes
  to, and the handle refers to a symbol and the changed symbol.
* `Mirrors.insert`, `Mirrors.modify`, `Mirrors.clear`, `Mirrors.record` — every change of a table
  keeps the relation and is reported on alike.
-/

set_option autoImplicit false

namespace Cmm

/-! ## Symbols -/

namespace Relabel

variable (r : Relabel)

def formal (f : Formal) : Formal := ⟨r.name f.name, f.scope, f.isFormal, f.ty⟩

def signature (sig : Signature) : Signature :=
  ⟨sig.result, sig.formals.map r.formal, sig.standing, sig.isExtern⟩

def symbol (s : Symbol) : Symbol :=
  ⟨r.name s.name, s.scope, s.ty, s.count?, s.isFormal, s.signature?.map r.signature,
    r.place s.span⟩

theorem symbol_fresh (name : String) (scope : Scope) (span : Span) :
    r.symbol (.fresh name scope span) = .fresh (r.name name) scope (r.place span) := rfl

theorem result?_symbol (s : Symbol) : (r.symbol s).result? = s.result? := by
  unfold Symbol.result? symbol
  cases s.signature? <;> rfl

theorem formals_symbol (s : Symbol) : (r.symbol s).formals = s.formals.map r.formal := by
  unfold Symbol.formals symbol
  cases s.signature? <;> rfl

end Relabel

/-! ## Checked values -/

namespace Checked

variable {α β α' β' : Type} {r : Relabel} {R : α → α' → Prop} {S : β → β' → Prop}

/-- Two checked values are related, and the reports on one are the changed reports on the other. -/
structure Agrees (r : Relabel) (R : α → α' → Prop) (x : Checked α) (y : Checked α') : Prop where
  value : R x.value y.value
  reports : y.reports = x.reports.map r.report

namespace Agrees

variable {x : Checked α} {y : Checked α'}

theorem pure {a : α} {b : α'} (h : R a b) : Agrees r R (Pure.pure a) (Pure.pure b) := ⟨h, rfl⟩

theorem bind (h : Agrees r R x y) {f : α → Checked β} {g : α' → Checked β'}
    (hf : ∀ a b, R a b → Agrees r S (f a) (g b)) : Agrees r S (x >>= f) (y >>= g) := by
  have hnext := hf x.value y.value h.value
  refine ⟨hnext.value, ?_⟩
  rw [reports_bind, reports_bind, List.map_append, h.reports, hnext.reports]

theorem map (h : Agrees r R x y) {f : α → β} {g : α' → β'} (hf : ∀ a b, R a b → S (f a) (g b)) :
    Agrees r S (f <$> x) (g <$> y) := by
  refine ⟨hf _ _ h.value, ?_⟩
  rw [reports_map, reports_map, h.reports]

/-- A report and the changed report, with what is done behind them. -/
theorem report {fault fault' : SemanticFault} {span span' : Span} {f : Unit → Checked β}
    {g : Unit → Checked β'} (hfault : fault' = r.fault fault) (hspan : span' = r.place span)
    (hf : Agrees r S (f ()) (g ())) :
    Agrees r S (Checked.report fault span >>= f) (Checked.report fault' span' >>= g) := by
  have hstep : Agrees r (fun _ _ => True) (Checked.report fault span)
      (Checked.report fault' span') := by
    rw [hfault, hspan]
    exact ⟨trivial, rfl⟩
  exact hstep.bind fun _ _ _ => hf

theorem reportIf {condition condition' : Bool} {fault fault' : SemanticFault} {span span' : Span}
    {f : Unit → Checked β} {g : Unit → Checked β'} (hcondition : condition' = condition)
    (hfault : fault' = r.fault fault) (hspan : span' = r.place span)
    (hf : Agrees r S (f ()) (g ())) :
    Agrees r S (Checked.reportIf condition fault span >>= f)
      (Checked.reportIf condition' fault' span' >>= g) := by
  rw [hcondition]
  cases condition with
  | true => exact report hfault hspan hf
  | false => exact (pure (R := fun _ _ => True) trivial).bind fun _ _ _ => hf

end Agrees

end Checked

/-! ## Tables -/

namespace Table

open Checked

variable {r : Relabel} {t t' : Table}

/-- The symbols of one table are the changed symbols of another, in the same order. -/
structure Mirrors (r : Relabel) (t t' : Table) : Prop where
  entries : ∀ scope, (t'.bindings scope).entries = (t.bindings scope).entries.map r.symbol
  generation : ∀ scope, (t'.bindings scope).generation = (t.bindings scope).generation
  chained : t.Chained
  chained' : t'.Chained

namespace Mirrors

theorem empty (r : Relabel) : Mirrors r .empty .empty :=
  ⟨fun scope => by cases scope <;> exact Array.map_empty.symm, fun _ => rfl, .empty, .empty⟩

theorem getElem? (m : Mirrors r t t') (scope : Scope) (i : Nat) :
    (t'.bindings scope).entries[i]? = (t.bindings scope).entries[i]?.map r.symbol := by
  rw [m.entries, Array.getElem?_map]

theorem handle (m : Mirrors r t t') (scope : Scope) (i : Nat) :
    t'.handle scope i = t.handle scope i := by
  unfold Table.handle
  rw [m.generation]

/-- Whatever buckets the names fall into, they are found at the same index. -/
theorem find? (m : Mirrors r t t') (name : String) (scope : Scope) :
    (t'.bindings scope).find? (r.name name) = (t.bindings scope).find? name := by
  apply Option.ext
  intro i
  rw [Bindings.find?_eq_some_iff (m.chained' scope), Bindings.find?_eq_some_iff (m.chained scope),
    m.getElem? scope i]
  constructor
  · rintro ⟨s', hs', hname⟩
    obtain ⟨s, hs, rfl⟩ := Option.map_eq_some_iff.1 hs'
    exact ⟨s, hs, r.name_eq_iff.1 hname⟩
  · rintro ⟨s, hs, rfl⟩
    exact ⟨r.symbol s, by rw [hs]; rfl, rfl⟩

theorem lookup (m : Mirrors r t t') (name : String) (scope : Scope) :
    t'.lookup (r.name name) scope = t.lookup name scope := by
  have hhandle : t'.handle scope = t.handle scope := funext (m.handle scope)
  unfold Table.lookup
  rw [m.find?, hhandle]

theorem lookupAny (m : Mirrors r t t') (name : String) :
    t'.lookupAny (r.name name) = t.lookupAny name := by
  unfold Table.lookupAny
  rw [m.lookup, m.lookup]

theorem get? (m : Mirrors r t t') (h : Handle) : t'.get? h = (t.get? h).map r.symbol := by
  have hmade := m.generation h.scope
  have hentry := m.getElem? h.scope h.index
  by_cases hg : (t.bindings h.scope).generation = h.generation
  · cases he : (t.bindings h.scope).entries[h.index]? <;>
      simp [Table.get?, Table.resolve, hmade, hentry, hg, he, Except.toOption]
  · simp [Table.get?, Table.resolve, hmade, hg, Except.toOption]

/-! Changes -/

theorem clear (m : Mirrors r t t') (scope : Scope) :
    Mirrors r (t.clear scope) (t'.clear scope) := by
  refine ⟨fun scope' => ?_, fun scope' => ?_, m.chained.clear scope, m.chained'.clear scope⟩
  · simp only [Table.clear, bindings_update]
    split
    · exact Array.map_empty.symm
    · exact m.entries scope'
  · have hmade := m.generation scope'
    simp only [Table.clear, bindings_update]
    split
    · simp only [Bindings.clear, hmade]
    · exact hmade

theorem modify (m : Mirrors r t t') (h : Handle) {f f' : Symbol → Symbol}
    (hf : ∀ s, f' (r.symbol s) = r.symbol (f s)) (keeps : ∀ s, (f s).name = s.name)
    (keeps' : ∀ s, (f' s).name = s.name) : Mirrors r (t.modify h f) (t'.modify h f') := by
  have hmade := m.generation h.scope
  refine ⟨fun scope => ?_, fun scope => ?_, m.chained.modify h keeps, m.chained'.modify h keeps'⟩
  · simp only [Table.modify, bindings_update]
    split
    · rename_i heq
      subst heq
      rw [hmade]
      split
      · apply Array.ext_getElem?
        intro i
        rw [Bindings.getElem?_modify, Array.getElem?_map, Bindings.getElem?_modify,
          m.getElem? h.scope i]
        split
        · cases (t.bindings h.scope).entries[i]? with
          | none => rfl
          | some s => simp [hf]
        · rfl
      · exact m.entries h.scope
    · exact m.entries scope
  · have hmade' := m.generation scope
    simp only [Table.modify, bindings_update]
    split
    · rename_i heq
      subst heq
      rw [hmade]
      split
      · exact hmade
      · exact hmade
    · exact hmade'

/-- A name and the name it goes to are declared alike. -/
theorem insert (m : Mirrors r t t') (name : String) (scope : Scope) (span : Span) :
    Agrees r (fun x y => y.1 = x.1 ∧ Mirrors r x.2 y.2) (t.insert name scope span)
      (t'.insert (r.name name) scope (r.place span)) := by
  have hfind := m.find? name scope
  cases hf : (t.bindings scope).find? name with
  | some i =>
      rw [hf] at hfind
      have hprevious : ((t'.bindings scope).entries[i]?.map (·.span)).getD (r.place span) =
          r.place (((t.bindings scope).entries[i]?.map (·.span)).getD span) := by
        rw [m.getElem?]
        cases (t.bindings scope).entries[i]? <;> rfl
      unfold Table.insert
      rw [hf, hfind]
      refine .report ?_ rfl (.pure ⟨m.handle scope i, m⟩)
      rw [hprevious]
      rfl
  | none =>
      rw [hf] at hfind
      obtain ⟨hvalue, hreports⟩ : (t.insert name scope span).value = _ ∧
          (t.insert name scope span).reports = [] := insert_of_none hf
      obtain ⟨hvalue', hreports'⟩ : (t'.insert (r.name name) scope (r.place span)).value = _ ∧
          (t'.insert (r.name name) scope (r.place span)).reports = [] := insert_of_none hfind
      have hsize : (t'.bindings scope).entries.size = (t.bindings scope).entries.size := by
        rw [m.entries, Array.size_map]
      have hchained := m.chained.insert name scope span
      have hchained' := m.chained'.insert (r.name name) scope (r.place span)
      refine ⟨?_, by rw [hreports, hreports']; rfl⟩
      rw [hvalue] at hchained ⊢
      rw [hvalue'] at hchained' ⊢
      refine ⟨by rw [hsize]; exact m.handle scope _, fun scope' => ?_, fun scope' => ?_, hchained,
        hchained'⟩
      · simp only [bindings_update]
        split
        · simp only [Bindings.entries_push, m.entries, Array.map_push, r.symbol_fresh]
        · exact m.entries scope'
      · have hmade := m.generation scope'
        simp only [bindings_update]
        split
        · exact hmade
        · exact hmade

end Mirrors

end Table

/-! ## Headers -/

theorem Relabel.ty_param (r : Relabel) (p : Param) : (r.param p).ty = p.ty := rfl

namespace Header

variable {r : Relabel}

theorem parameterDifferences_relabel (name : String) (position : Nat) (formals : List Formal)
    (params : List Param) :
    parameterDifferences (r.name name) position (formals.map r.formal) (params.map r.param) =
      (parameterDifferences name position formals params).map r.report := by
  induction formals generalizing position params with
  | nil => rfl
  | cons formal formals ih =>
      cases params with
      | nil => rfl
      | cons param params =>
          have hlater := ih (position + 1) params
          by_cases hty : formal.ty = param.ty
          · simpa [parameterDifferences, hty, Relabel.formal, r.ty_param] using hlater
          · simpa [parameterDifferences, hty, Relabel.formal, r.ty_param] using ⟨rfl, hlater⟩

/-- A definition differs from a prototype under other names and places where it does so anyway. -/
theorem agrees_differences (h : Header) (sig : Signature) :
    Checked.Agrees r (fun _ _ => True) (h.differences sig)
      ((r.header h).differences (r.signature sig)) := by
  have hparameters : Checked.Agrees r (fun _ _ => True)
      (⟨(), parameterDifferences h.name 1 sig.formals h.params⟩ : Checked Unit)
      ⟨(), parameterDifferences (r.name h.name) 1 (sig.formals.map r.formal)
        (h.params.map r.param)⟩ := ⟨trivial, parameterDifferences_relabel ..⟩
  have hformals : (sig.formals.map r.formal).length = sig.formals.length := List.length_map _
  have hparams : (h.params.map r.param).length = h.params.length := List.length_map _
  refine hparameters.bind fun _ _ _ => .reportIf ?_ ?_ rfl (.reportIf rfl rfl rfl ?_)
  · simp only [Relabel.signature, Relabel.header, hformals, hparams]
  · simp only [Relabel.signature, Relabel.header, hformals, hparams, Relabel.fault]
  · have hexternal : (r.signature sig).isExtern = sig.isExtern := rfl
    rw [hexternal]
    cases sig.isExtern with
    | true => exact ⟨trivial, rfl⟩
    | false => exact ⟨trivial, rfl⟩

end Header

namespace Table.Mirrors

open Checked

variable {r : Relabel} {t t' : Table}

theorem claim (m : Mirrors r t t') (h : Header) (role : Role) :
    Agrees r (fun x y => y.1 = x.1 ∧ Mirrors r x.2.1 y.2.1 ∧ y.2.2 = x.2.2) (t.claim h role)
      (t'.claim (r.header h) role) := by
  have hlookup : t'.lookup (r.header h).name .global = t.lookup h.name .global :=
    m.lookup h.name .global
  have hredefined : ∀ callee : Handle, Agrees r
      (fun (x y : Handle × Table × Bool) => y.1 = x.1 ∧ Mirrors r x.2.1 y.2.1 ∧ y.2.2 = x.2.2)
      (do Checked.report (.redefined h.name) h.span; return (callee, t, false))
      (do Checked.report (.redefined (r.header h).name) (r.header h).span
          return (callee, t', false)) := fun callee => .report rfl rfl (.pure ⟨rfl, m, rfl⟩)
  unfold Table.claim
  rw [hlookup]
  cases t.lookup h.name .global with
  | none =>
      refine (m.insert h.name .global h.span).bind fun x y hxy => .pure ?_
      exact ⟨hxy.1, hxy.2, rfl⟩
  | some callee =>
      have hsignature : (t'.get? callee).bind (·.signature?) =
          ((t.get? callee).bind (·.signature?)).map r.signature := by
        rw [m.get?]
        cases t.get? callee <;> rfl
      dsimp only
      rw [hsignature]
      cases (t.get? callee).bind (·.signature?) with
      | none => exact hredefined callee
      | some sig =>
          dsimp only [Option.map_some, Relabel.signature]
          split
          · exact (Header.agrees_differences h sig).bind fun _ _ _ => .pure ⟨rfl, m, rfl⟩
          · exact hredefined callee

theorem addFormal (m : Mirrors r t t') (scope : Scope) (p : Param) :
    Agrees r (fun x y => y.1 = x.1.map r.formal ∧ Mirrors r x.2 y.2) (t.addFormal scope p)
      (t'.addFormal scope (r.param p)) := by
  unfold Table.addFormal
  by_cases hspec : p.spec = .void
  · rw [if_pos hspec, if_pos (show (r.param p).spec = .void from hspec)]
    exact .report rfl rfl (.pure ⟨rfl, m⟩)
  · rw [if_neg hspec, if_neg (show (r.param p).spec ≠ .void from hspec)]
    refine (m.insert p.name scope p.span).bind fun x y hxy => .pure ?_
    obtain ⟨hhandle, hinserted⟩ := hxy
    have hmodified : Mirrors r
        (x.2.modify x.1 fun s => { s with isFormal := true, ty := p.ty })
        (y.2.modify x.1 fun s => { s with isFormal := true, ty := (r.param p).ty }) :=
      hinserted.modify x.1 (fun _ => rfl) (fun _ => rfl) fun _ => rfl
    rw [hhandle]
    refine ⟨?_, hmodified⟩
    rw [hmodified.get?, Option.map_map, Option.map_map]
    rfl

theorem addFormals (m : Mirrors r t t') (scope : Scope) (ps : List Param) :
    Agrees r (fun x y => y.1 = x.1.map r.formal ∧ Mirrors r x.2 y.2) (t.addFormals scope ps)
      (t'.addFormals scope (ps.map r.param)) := by
  induction ps generalizing t t' with
  | nil => exact .pure ⟨rfl, m⟩
  | cons p rest ih =>
      refine (m.addFormal scope p).bind fun x y hxy => (ih hxy.2).bind fun x' y' hxy' => .pure ?_
      refine ⟨?_, hxy'.2⟩
      rw [hxy.1, hxy'.1, List.map_append]
      cases x.1 <;> rfl

/-- A header enters the table alike, whether it writes its signature or is rejected. -/
theorem record (m : Mirrors r t t') (h : Header) (scope : Scope) (isExtern : Bool) (role : Role) :
    Agrees r (fun x y => y.1 = x.1 ∧ Mirrors r x.2 y.2) (t.record h scope isExtern role)
      (t'.record (r.header h) scope isExtern role) := by
  refine (m.claim h role).bind fun x y hxy => ?_
  obtain ⟨hcallee, hclaimed, hwrites⟩ := hxy
  refine (hclaimed.addFormals scope h.params).bind fun x' y' hxy' => ?_
  obtain ⟨hformals, hadded⟩ := hxy'
  dsimp only
  rw [hwrites, hcallee, hformals]
  split
  · exact .pure ⟨rfl, hadded.modify _ (fun _ => rfl) (fun _ => rfl) fun _ => rfl⟩
  · exact .pure ⟨rfl, hadded⟩

end Table.Mirrors

end Cmm
