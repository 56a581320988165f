import Mathlib.Logic.Relation
import Cmm.Proofs.Bindings

/-!
# Names and handles of a symbol table

* `Table.get?_insert`, `Table.get?_modify`, `Table.get?_clear` — what every change of a table does
  to what its handles refer to.
* `Table.Chained` — both scopes are sound; every change that renames nothing keeps it.
* `Table.Placed` — every symbol knows the scope it is in.
* `Table.Sound` — moreover every symbol is `Symbol.Coherent`: a function has its signature, and no
  symbol has the type of an error.
* `Table.Growths` — the tables that inserting and rewriting lead to.
* `Table.Edits` — the tables that inserting, rewriting and clearing the locals lead to;
  `Edits.sound`, `Edits.placed` and `Edits.get?_global` say what all of them keep.
* `Table.Denotes` — which symbol a name stands for, without a look at the chains;
  `lookupAny_eq_some_iff` and `lookupAny_eq_none_iff` say that a lookup finds it.
-/

set_option autoImplicit false

namespace Cmm

/-- A function has a signature, and nothing has the type of an error. -/
structure Symbol.Coherent (s : Symbol) : Prop where
  ty_ne_error : s.ty ≠ .error
  signature_of_function : s.ty = .function → ∃ sig, s.signature? = some sig

/-- Two symbols come from one declaration: their name, their scope and their place agree. -/
structure Symbol.SameDeclaration (s s' : Symbol) : Prop where
  name : s.name = s'.name
  scope : s.scope = s'.scope
  span : s.span = s'.span

namespace Table

variable {t t' : Table} {h h' : Handle} {s : Symbol}

/-! ## Handles -/

theorem get?_eq_some_iff : t.get? h = some s ↔
    (t.bindings h.scope).generation = h.generation ∧
      (t.bindings h.scope).entries[h.index]? = some s := by
  unfold get? resolve
  by_cases hg : (t.bindings h.scope).generation = h.generation
  · cases he : (t.bindings h.scope).entries[h.index]? <;> simp [hg, he, Except.toOption]
  · simp [hg, Except.toOption]

theorem get?_handle (scope : Scope) (i : Nat) :
    t.get? (t.handle scope i) = (t.bindings scope).entries[i]? := by
  apply Option.ext
  intro s
  rw [get?_eq_some_iff]
  simp [handle]

/-- A handle is the one its scope makes for its index. -/
theorem eq_handle_of_get? (hs : t.get? h = some s) : h = t.handle h.scope h.index := by
  obtain ⟨hg, -⟩ := get?_eq_some_iff.1 hs
  simp only [handle, hg]

@[simp] theorem bindings_update (t : Table) (scope scope' : Scope) (f : Bindings → Bindings) :
    (t.update scope f).bindings scope' =
      if scope = scope' then f (t.bindings scope') else t.bindings scope' := by
  cases scope <;> cases scope' <;> rfl

theorem update_eq_self {scope : Scope} {f : Bindings → Bindings}
    (same : f (t.bindings scope) = t.bindings scope) : t.update scope f = t := by
  cases scope with
  | global => exact congrArg (fun b => { t with globals := b }) same
  | «local» => exact congrArg (fun b => { t with locals := b }) same

theorem get?_modify (f : Symbol → Symbol) :
    (t.modify h f).get? h' = if h = h' then (t.get? h').map f else t.get? h' := by
  apply Option.ext
  intro s
  simp only [modify, get?_eq_some_iff, bindings_update]
  by_cases hsc : h.scope = h'.scope
  · by_cases hg : (t.bindings h'.scope).generation = h.generation
    · by_cases heq : h = h'
      · subst heq
        simp [Bindings.modify, Array.getElem?_modify, hg, get?_eq_some_iff]
      · simp only [hsc, hg, if_true, if_neg heq, get?_eq_some_iff, Bindings.getElem?_modify]
        -- Two good handles of one scope differ in their index.
        have : h.generation = h'.generation → h.index ≠ h'.index := by
          intro hgen hi
          apply heq
          cases h
          cases h'
          simp_all
        constructor
        · rintro ⟨hgen, hs⟩
          rw [show (Bindings.modify _ _ f).generation = (t.bindings h'.scope).generation from rfl,
            hg] at hgen
          rw [if_neg (this hgen)] at hs
          exact ⟨hgen, hs⟩
        · rintro ⟨hgen, hs⟩
          refine ⟨by rw [← hgen, ← hg]; rfl, ?_⟩
          rw [if_neg (this hgen)]
          exact hs
    · have : h ≠ h' ∨ (t.bindings h'.scope).generation ≠ h'.generation := by
        by_cases heq : h = h'
        · subst heq
          exact .inr hg
        · exact .inl heq
      simp only [hsc, hg, if_true, if_false]
      split
      · rename_i heq
        subst heq
        simp [hg, get?_eq_some_iff]
      · rw [get?_eq_some_iff]
  · have heq : h ≠ h' := fun e => hsc (by rw [e])
    simp only [if_neg hsc, if_neg heq, get?_eq_some_iff]

theorem get?_clear (scope : Scope) :
    (t.clear scope).get? h = if h.scope = scope then none else t.get? h := by
  apply Option.ext
  intro s
  simp only [clear, get?_eq_some_iff, bindings_update]
  by_cases hsc : scope = h.scope
  · simp [hsc, Bindings.clear]
  · rw [if_neg hsc, if_neg (fun e => hsc e.symm), get?_eq_some_iff]

/-- A name that is found is that of a symbol of its scope. -/
theorem get?_of_lookup {name : String} {scope : Scope} (found : t.lookup name scope = some h) :
    h.scope = scope ∧ ∃ s, t.get? h = some s ∧ s.name = name := by
  obtain ⟨i, hi, rfl⟩ := Option.map_eq_some_iff.1 found
  rw [get?_handle]
  exact ⟨rfl, Bindings.isNamed_iff.1 (List.find?_some hi)⟩

/-! ## Declaring a name -/

/-- Declaring a name that is there changes nothing but is reported. -/
theorem insert_of_some {name : String} {scope : Scope} {span : Span} {i : Nat}
    (found : (t.bindings scope).find? name = some i) :
    (t.insert name scope span).value = (t.handle scope i, t) ∧
      (t.insert name scope span).reports ≠ [] := by
  unfold insert
  rw [found]
  exact ⟨rfl, by simp [Checked.report]⟩

/-- Declaring a new name adds a symbol without a type. -/
theorem insert_of_none {name : String} {scope : Scope} {span : Span}
    (fresh : (t.bindings scope).find? name = none) :
    (t.insert name scope span).value = (t.handle scope (t.bindings scope).entries.size,
      t.update scope (·.push (.fresh name scope span))) ∧
      (t.insert name scope span).reports = [] := by
  unfold insert
  rw [fresh]
  exact ⟨rfl, rfl⟩

/-- What a handle refers to, it refers to after a name is declared. -/
theorem get?_insert (name : String) (scope : Scope) (span : Span) (hs : t.get? h = some s) :
    (t.insert name scope span).value.2.get? h = some s := by
  cases hf : (t.bindings scope).find? name with
  | some i =>
      rw [(insert_of_some hf).1]
      exact hs
  | none =>
      rw [(insert_of_none hf).1]
      obtain ⟨hg, he⟩ := get?_eq_some_iff.1 hs
      rw [get?_eq_some_iff, bindings_update]
      split
      · refine ⟨hg, ?_⟩
        have hlt := (Array.getElem?_eq_some_iff.1 he).1
        rw [Bindings.entries_push, Array.getElem?_push, if_neg (by omega)]
        exact he
      · exact ⟨hg, he⟩

/-- The handle of a declared name refers to a symbol of that name. -/
theorem get?_insert_self (name : String) (scope : Scope) (span : Span) :
    ∃ s, (t.insert name scope span).value.2.get? (t.insert name scope span).value.1 = some s ∧
      s.name = name := by
  cases hf : (t.bindings scope).find? name with
  | some i =>
      rw [(insert_of_some hf).1, get?_handle]
      exact Bindings.isNamed_iff.1 (List.find?_some hf)
  | none =>
      rw [(insert_of_none hf).1]
      refine ⟨.fresh name scope span, ?_, rfl⟩
      rw [get?_eq_some_iff]
      simp [handle, Bindings.push]

/-- After a name is declared, a handle refers to what it referred to before, or to the new
symbol. -/
theorem get?_of_get?_insert {name : String} {scope : Scope} {span : Span}
    (hs : (t.insert name scope span).value.2.get? h = some s) :
    t.get? h = some s ∨ h.scope = scope ∧ s = .fresh name scope span := by
  cases hf : (t.bindings scope).find? name with
  | some i =>
      rw [(insert_of_some hf).1] at hs
      exact .inl hs
  | none =>
      rw [(insert_of_none hf).1] at hs
      obtain ⟨hg, he⟩ := get?_eq_some_iff.1 hs
      rw [bindings_update] at hg he
      split at he
      · rename_i heq
        rw [Bindings.entries_push, Array.getElem?_push] at he
        split at he
        · cases he
          exact .inr ⟨heq.symm, rfl⟩
        · rw [if_pos heq] at hg
          exact .inl (get?_eq_some_iff.2 ⟨hg, he⟩)
      · rename_i heq
        rw [if_neg heq] at hg
        exact .inl (get?_eq_some_iff.2 ⟨hg, he⟩)

theorem scope_insert (name : String) (scope : Scope) (span : Span) :
    (t.insert name scope span).value.1.scope = scope := by
  cases hf : (t.bindings scope).find? name with
  | some i => rw [(insert_of_some hf).1]; rfl
  | none => rw [(insert_of_none hf).1]; rfl

/-- A declared name changes its own scope only. -/
theorem bindings_insert_of_ne {name : String} {scope scope' : Scope} {span : Span}
    (hne : scope ≠ scope') :
    (t.insert name scope span).value.2.bindings scope' = t.bindings scope' := by
  cases hf : (t.bindings scope).find? name with
  | some i => rw [(insert_of_some hf).1]
  | none => rw [(insert_of_none hf).1, bindings_update, if_neg hne]

/-- A rewritten symbol changes its own scope only. -/
theorem bindings_modify_of_ne {scope : Scope} {f : Symbol → Symbol} (hne : h.scope ≠ scope) :
    (t.modify h f).bindings scope = t.bindings scope :=
  (bindings_update ..).trans (if_neg hne)

/-- Rewriting a symbol leaves the bindings of a scope alone, or rewrites the symbol at the index. -/
theorem bindings_modify_cases (t : Table) (h : Handle) (f : Symbol → Symbol) (scope : Scope) :
    (t.modify h f).bindings scope = t.bindings scope ∨
      (t.modify h f).bindings scope = (t.bindings scope).modify h.index f := by
  unfold Table.modify
  rw [bindings_update]
  split
  · split
    · exact .inr rfl
    · exact .inl rfl
  · exact .inl rfl

/-! ## What every change keeps -/

/-- The chains of both scopes list their symbols. -/
def Chained (t : Table) : Prop := ∀ scope, (t.bindings scope).Sound

theorem Chained.empty : Table.empty.Chained := by
  intro scope
  cases scope <;> exact Bindings.Sound.empty

theorem Chained.insert (ht : t.Chained) (name : String) (scope : Scope) (span : Span) :
    (t.insert name scope span).value.2.Chained := by
  cases hf : (t.bindings scope).find? name with
  | some i =>
      rw [(insert_of_some hf).1]
      exact ht
  | none =>
      rw [(insert_of_none hf).1]
      intro scope'
      rw [bindings_update]
      split
      · rename_i heq
        subst heq
        exact (ht scope).push hf
      · exact ht scope'

theorem Chained.modify (ht : t.Chained) (h : Handle) {f : Symbol → Symbol}
    (keeps : ∀ s, (f s).name = s.name) : (t.modify h f).Chained := by
  intro scope
  rcases bindings_modify_cases t h f scope with hb | hb <;> rw [hb]
  · exact ht scope
  · exact (ht scope).modify _ keeps

theorem Chained.clear (ht : t.Chained) (scope : Scope) : (t.clear scope).Chained := by
  intro scope'
  simp only [Table.clear, bindings_update]
  split
  · exact Bindings.Sound.clear _
  · exact ht scope'

/-- Every symbol knows the scope it is in. -/
def Placed (t : Table) : Prop :=
  ∀ (h : Handle) (s : Symbol), t.get? h = some s → s.scope = h.scope

theorem Placed.empty : Table.empty.Placed := by
  intro h s hs
  obtain ⟨-, he⟩ := get?_eq_some_iff.1 hs
  cases hsc : h.scope <;> simp [hsc, Table.empty, Table.bindings, Bindings.empty] at he

theorem Placed.insert (ht : t.Placed) (name : String) (scope : Scope) (span : Span) :
    (t.insert name scope span).value.2.Placed := by
  intro h s hs
  rcases get?_of_get?_insert hs with hold | ⟨hscope, rfl⟩
  · exact ht h s hold
  · exact hscope.symm

theorem Placed.modify (ht : t.Placed) (h : Handle) {f : Symbol → Symbol}
    (keeps : ∀ s, (f s).scope = s.scope) : (t.modify h f).Placed := by
  intro h' s hs
  rw [get?_modify] at hs
  split at hs
  · rename_i heq
    subst heq
    obtain ⟨s', hs', rfl⟩ := Option.map_eq_some_iff.1 hs
    rw [keeps]
    exact ht h s' hs'
  · exact ht h' s hs

theorem Placed.clear (ht : t.Placed) (scope : Scope) : (t.clear scope).Placed := by
  intro h s hs
  rw [get?_clear] at hs
  split at hs
  · cases hs
  · exact ht h s hs

/-- Both scopes are sound and every symbol is coherent. -/
structure Sound (t : Table) : Prop where
  bindings : ∀ scope, (t.bindings scope).Sound
  coherent : ∀ {h : Handle} {s : Symbol}, t.get? h = some s → s.Coherent

/-- One change of a table. -/
inductive Edit (t : Table) : Table → Prop
  | insert (name : String) (scope : Scope) (span : Span) : Edit t (t.insert name scope span).value.2
  | modify (h : Handle) (f : Symbol → Symbol) (keeps : ∀ s : Symbol, (f s).SameDeclaration s)
      (coherent : ∀ s : Symbol, s.Coherent → (f s).Coherent) : Edit t (t.modify h f)
  | clear : Edit t (t.clear .local)

/-- Any number of changes of a table. -/
abbrev Edits : Table → Table → Prop := Relation.ReflTransGen Edit

/-- One change of a table that drops nothing. -/
inductive Growth (t : Table) : Table → Prop
  | insert (name : String) (scope : Scope) (span : Span) :
      Growth t (t.insert name scope span).value.2
  | modify (h : Handle) (f : Symbol → Symbol) (keeps : ∀ s : Symbol, (f s).SameDeclaration s)
      (coherent : ∀ s : Symbol, s.Coherent → (f s).Coherent) : Growth t (t.modify h f)

/-- Any number of changes of a table that drop nothing. -/
abbrev Growths : Table → Table → Prop := Relation.ReflTransGen Growth

theorem Growth.edit (h : t.Growth t') : t.Edit t' := by
  cases h with
  | insert name scope span => exact .insert name scope span
  | modify h f keeps coherent => exact .modify h f keeps coherent

theorem Growths.edits (h : t.Growths t') : t.Edits t' :=
  Relation.ReflTransGen.mono (fun _ _ => Growth.edit) _ _ h

theorem Sound.empty : Table.empty.Sound := by
  refine ⟨Chained.empty, ?_⟩
  intro h s hs
  obtain ⟨-, he⟩ := get?_eq_some_iff.1 hs
  cases hsc : h.scope <;> simp [hsc, Table.empty, Table.bindings, Bindings.empty] at he

theorem coherent_fresh (name : String) (scope : Scope) (span : Span) :
    (Symbol.fresh name scope span).Coherent :=
  ⟨by simp [Symbol.fresh], fun h => by simp [Symbol.fresh] at h⟩

theorem Sound.insert (ht : t.Sound) (name : String) (scope : Scope) (span : Span) :
    (t.insert name scope span).value.2.Sound := by
  refine ⟨Chained.insert ht.bindings name scope span, ?_⟩
  intro h s hs
  rcases get?_of_get?_insert hs with hold | ⟨-, rfl⟩
  · exact ht.coherent hold
  · exact coherent_fresh name scope span

theorem Sound.modify (ht : t.Sound) (h : Handle) {f : Symbol → Symbol}
    (keeps : ∀ s, (f s).name = s.name) (coherent : ∀ s : Symbol, s.Coherent → (f s).Coherent) :
    (t.modify h f).Sound := by
  refine ⟨Chained.modify ht.bindings h keeps, ?_⟩
  intro h' s hs
  rw [get?_modify] at hs
  split at hs
  · obtain ⟨s', hs', rfl⟩ := Option.map_eq_some_iff.1 hs
    exact coherent s' (ht.coherent hs')
  · exact ht.coherent hs

theorem Sound.clear (ht : t.Sound) (scope : Scope) : (t.clear scope).Sound := by
  refine ⟨Chained.clear ht.bindings scope, ?_⟩
  intro h s hs
  rw [get?_clear] at hs
  split at hs
  · cases hs
  · exact ht.coherent hs

theorem Edits.sound (ht : t.Sound) (he : t.Edits t') : t'.Sound := by
  induction he with
  | refl => exact ht
  | tail _ last ih =>
      cases last with
      | insert name scope span => exact ih.insert name scope span
      | modify h f keeps coherent => exact ih.modify h (fun s => (keeps s).name) coherent
      | clear => exact ih.clear .local

theorem Edits.chained (ht : t.Chained) (he : t.Edits t') : t'.Chained := by
  induction he with
  | refl => exact ht
  | tail _ last ih =>
      cases last with
      | insert name scope span => exact ih.insert name scope span
      | modify h f keeps _ => exact ih.modify h fun s => (keeps s).name
      | clear => exact ih.clear .local

theorem Edits.placed (ht : t.Placed) (he : t.Edits t') : t'.Placed := by
  induction he with
  | refl => exact ht
  | tail _ last ih =>
      cases last with
      | insert name scope span => exact ih.insert name scope span
      | modify h f keeps _ => exact ih.modify h fun s => (keeps s).scope
      | clear => exact ih.clear .local

/-- A handle to a name of the program refers to that name for good. -/
theorem Edits.get?_global (he : t.Edits t') (hg : h.scope = .global) (hs : t.get? h = some s) :
    ∃ s', t'.get? h = some s' ∧ s'.name = s.name := by
  induction he with
  | refl => exact ⟨s, hs, rfl⟩
  | tail _ last ih =>
      obtain ⟨s', hs', hn⟩ := ih
      cases last with
      | insert name scope span => exact ⟨s', get?_insert name scope span hs', hn⟩
      | modify h' f keeps _ =>
          rw [get?_modify]
          split
          · exact ⟨f s', by rw [hs']; rfl, by rw [(keeps s').name, hn]⟩
          · exact ⟨s', hs', hn⟩
      | clear =>
          rw [get?_clear, if_neg (by rw [hg]; decide)]
          exact ⟨s', hs', hn⟩

/-! ## What a name stands for -/

/-- A name stands for the symbol of the function at hand that has it, else for that of the
program. -/
structure Denotes (t : Table) (name : String) (h : Handle) (s : Symbol) : Prop where
  get : t.get? h = some s
  named : s.name = name
  visible : h.scope = .global → ∀ (i : Nat) (s' : Symbol),
    t.locals.entries[i]? = some s' → s'.name ≠ name

theorem lookup_eq_some_iff (ht : t.Sound) {name : String} {scope : Scope} :
    t.lookup name scope = some h ↔ h.scope = scope ∧ ∃ s, t.get? h = some s ∧ s.name = name := by
  constructor
  · exact get?_of_lookup
  · rintro ⟨rfl, s, hs, hn⟩
    refine Option.map_eq_some_iff.2 ⟨h.index, ?_, (eq_handle_of_get? hs).symm⟩
    exact (Bindings.find?_eq_some_iff (ht.bindings h.scope)).2 ⟨s, (get?_eq_some_iff.1 hs).2, hn⟩

theorem lookup_eq_none_iff (ht : t.Sound) {name : String} {scope : Scope} :
    t.lookup name scope = none ↔
      ∀ (i : Nat) (s : Symbol), (t.bindings scope).entries[i]? = some s → s.name ≠ name := by
  unfold lookup
  rw [Option.map_eq_none_iff]
  exact Bindings.find?_eq_none_iff (ht.bindings scope)

theorem lookupAny_eq_some_iff (ht : t.Sound) {name : String} :
    t.lookupAny name = some h ↔ ∃ s, t.Denotes name h s := by
  unfold lookupAny
  cases hl : t.lookup name .local with
  | some h' =>
      obtain ⟨hsc, s', hs', hn'⟩ := (lookup_eq_some_iff ht).1 hl
      simp only [Option.some_or, Option.some.injEq]
      constructor
      · rintro rfl
        exact ⟨s', hs', hn', fun hg => by rw [hsc] at hg; cases hg⟩
      · rintro ⟨s, hs, hn, hv⟩
        cases hg : h.scope with
        | global =>
            obtain ⟨-, he⟩ := get?_eq_some_iff.1 hs'
            rw [hsc] at he
            exact absurd hn' (hv hg _ _ he)
        | «local» =>
            have := (lookup_eq_some_iff ht).2 ⟨hg, s, hs, hn⟩
            rw [hl] at this
            exact Option.some.inj this
  | none =>
      have hnone := (lookup_eq_none_iff ht).1 hl
      simp only [Option.none_or]
      rw [lookup_eq_some_iff ht]
      constructor
      · rintro ⟨_, s, hs, hn⟩
        exact ⟨s, hs, hn, fun _ => hnone⟩
      · rintro ⟨s, hs, hn, _⟩
        refine ⟨?_, s, hs, hn⟩
        cases hg : h.scope with
        | global => rfl
        | «local» =>
            obtain ⟨-, he⟩ := get?_eq_some_iff.1 hs
            rw [hg] at he
            exact absurd hn (hnone _ _ he)

theorem lookupAny_eq_none_iff (ht : t.Sound) {name : String} :
    t.lookupAny name = none ↔ ∀ (h : Handle) (s : Symbol), ¬ t.Denotes name h s := by
  constructor
  · intro hn h s hd
    rw [(lookupAny_eq_some_iff ht).2 ⟨s, hd⟩] at hn
    cases hn
  · intro hall
    cases hl : t.lookupAny name with
    | none => rfl
    | some h =>
        obtain ⟨s, hd⟩ := (lookupAny_eq_some_iff ht).1 hl
        exact absurd hd (hall h s)

/-- A name stands for one symbol at most. -/
theorem Denotes.unique (ht : t.Sound) {name : String} {s' : Symbol} (hd : t.Denotes name h s)
    (hd' : t.Denotes name h' s') : h = h' ∧ s = s' := by
  have e := (lookupAny_eq_some_iff ht).2 ⟨s, hd⟩
  rw [(lookupAny_eq_some_iff ht).2 ⟨s', hd'⟩] at e
  cases e
  have e := hd.get
  rw [hd'.get] at e
  cases e
  exact ⟨rfl, rfl⟩

end Table

end Cmm
