import Cmm.Proofs.Signatures
import Cmm.Proofs.Table.Maps

/-!
# How long a handle is good

* `Bindings.Extends`, `Table.Extends` — a scope that is not cleared keeps its symbols in their
  places, each with its declaration. Tables that grow extend the one before
  (`Table.Growths.extends`).
* `Table.Operation.Faithful` — an operation leaves symbols their declaration.
* `Table.generation_performAll` — the generation of a scope counts its clearings.
* `Table.Gives` — the handles that a table gives out, each with the table behind it.
* `Table.good_until_cleared` — such a handle refers to its symbol until its scope is cleared, and is
  stale from then on.
-/

set_option autoImplicit false

namespace Cmm

theorem Symbol.SameDeclaration.trans {s s' s'' : Symbol} (h : s.SameDeclaration s')
    (h' : s'.SameDeclaration s'') : s.SameDeclaration s'' :=
  ⟨h.name.trans h'.name, h.scope.trans h'.scope, h.span.trans h'.span⟩

namespace Bindings

variable {b b' b'' : Bindings}

/-- What is in a scope stays in its place, each symbol with its declaration. -/
structure Extends (b b' : Bindings) : Prop where
  generation : b'.generation = b.generation
  symbol : ∀ {i : Nat} {s : Symbol}, b.entries[i]? = some s →
    ∃ s', b'.entries[i]? = some s' ∧ s'.SameDeclaration s

theorem Extends.refl (b : Bindings) : b.Extends b := ⟨rfl, fun hs => ⟨_, hs, rfl, rfl, rfl⟩⟩

theorem Extends.trans (h : b.Extends b') (h' : b'.Extends b'') : b.Extends b'' := by
  refine ⟨h'.generation.trans h.generation, fun hs => ?_⟩
  obtain ⟨s', hs', hsame⟩ := h.symbol hs
  obtain ⟨s'', hs'', hsame'⟩ := h'.symbol hs'
  exact ⟨s'', hs'', hsame'.trans hsame⟩

theorem extends_push (b : Bindings) (s : Symbol) : b.Extends (b.push s) := by
  refine ⟨rfl, fun {i s'} hs' => ⟨s', ?_, rfl, rfl, rfl⟩⟩
  have hlt := (Array.getElem?_eq_some_iff.1 hs').1
  rw [entries_push, Array.getElem?_push, if_neg (by omega), hs']

theorem extends_modify (b : Bindings) (index : Nat) {f : Symbol → Symbol}
    (keeps : ∀ s, (f s).SameDeclaration s) : b.Extends (b.modify index f) := by
  refine ⟨rfl, fun {i s} hs => ?_⟩
  rw [getElem?_modify, hs]
  split
  · exact ⟨f s, rfl, keeps s⟩
  · exact ⟨s, rfl, rfl, rfl, rfl⟩

end Bindings

namespace Table

variable {t t' t'' : Table} {h : Handle} {s : Symbol}

/-! ## Tables that grow -/

/-- Both scopes keep what is in them. -/
def Extends (t t' : Table) : Prop := ∀ scope, (t.bindings scope).Extends (t'.bindings scope)

theorem Extends.refl (t : Table) : t.Extends t := fun _ => .refl _

theorem Extends.trans (h : t.Extends t') (h' : t'.Extends t'') : t.Extends t'' :=
  fun scope => (h scope).trans (h' scope)

theorem extends_insert (t : Table) (name : String) (scope : Scope) (span : Span) :
    t.Extends (t.insert name scope span).value.2 := by
  cases hf : (t.bindings scope).find? name with
  | some i =>
      rw [(insert_of_some hf).1]
      exact .refl t
  | none =>
      rw [(insert_of_none hf).1]
      intro scope'
      rw [bindings_update]
      split
      · exact Bindings.extends_push _ _
      · exact .refl _

theorem extends_modify (t : Table) (h : Handle) {f : Symbol → Symbol}
    (keeps : ∀ s, (f s).SameDeclaration s) : t.Extends (t.modify h f) := by
  intro scope
  rw [modify, bindings_update]
  split
  · split
    · exact Bindings.extends_modify _ _ keeps
    · exact .refl _
  · exact .refl _

/-- To insert names and to rewrite symbols extends a table. -/
theorem Growths.extends (h : t.Growths t') : t.Extends t' := by
  induction h with
  | refl => exact .refl t
  | tail _ last ih =>
      cases last with
      | insert name scope span => exact ih.trans (extends_insert _ name scope span)
      | modify h f keeps _ => exact ih.trans (extends_modify _ h keeps)

/-! ## Operations -/

/-- A symbol that is rewritten stays the symbol of its declaration. -/
def Operation.Faithful : Operation → Prop
  | .rewrite _ change _ => ∀ s, (change s).SameDeclaration s
  | _ => True

variable {op : Operation} {ops : List Operation} {scope : Scope}

/-- A scope that is not cleared keeps what is in it. -/
theorem extends_perform (faithful : op.Faithful) (uncleared : op.clears scope = false) :
    (t.bindings scope).Extends ((t.perform op).bindings scope) := by
  have hclear : ∀ target, target ≠ scope →
      (t.bindings scope).Extends ((t.clear target).bindings scope) := by
    intro target hne
    rw [clear, bindings_update, if_neg hne]
    exact .refl _
  cases op with
  | insert name target span => exact extends_insert t name target span scope
  | clear target => exact hclear target (by simpa [Operation.clears] using uncleared)
  | lookup name target => exact .refl _
  | record header? target isExtern role =>
      cases header? with
      | none => exact .refl _
      | some header => exact (growths_record t header target isExtern role).extends scope
  | cleanup =>
      refine hclear .local fun heq => ?_
      rw [← heq] at uncleared
      cases uncleared
  | rewrite h change keeps => exact extends_modify t h faithful scope

theorem generation_perform (faithful : op.Faithful) :
    ((t.perform op).bindings scope).generation =
      (t.bindings scope).generation + if op.clears scope then 1 else 0 := by
  have hclear : ((t.clear scope).bindings scope).generation =
      (t.bindings scope).generation + 1 := by
    rw [clear, bindings_update, if_pos rfl]
    rfl
  split
  · rename_i hcleared
    cases op with
    | clear target =>
        rw [show target = scope by simpa [Operation.clears] using hcleared]
        exact hclear
    | cleanup =>
        rw [show scope = .local by simpa [Operation.clears] using hcleared] at hclear ⊢
        exact hclear
    | insert | lookup | record | rewrite => cases hcleared
  · rename_i huncleared
    rw [(extends_perform faithful (by simpa using huncleared)).generation, UInt32.add_zero]

/-- **The generation of a scope counts its clearings**, modulo `2 ^ 32`. -/
theorem generation_performAll (t : Table) (faithful : ∀ op ∈ ops, op.Faithful) (scope : Scope) :
    ((t.performAll ops).bindings scope).generation =
      (t.bindings scope).generation + UInt32.ofNat (ops.countP (·.clears scope)) := by
  induction ops generalizing t with
  | nil => exact (UInt32.add_zero _).symm
  | cons op rest ih =>
      obtain ⟨hop, hrest⟩ := List.forall_mem_cons.1 faithful
      have hstep := ih (t.perform op) hrest
      rw [generation_perform hop] at hstep
      show ((Table.performAll (t.perform op) rest).bindings scope).generation = _
      rw [hstep, List.countP_cons, UInt32.add_assoc]
      congr 1
      split
      · rw [UInt32.ofNat_add, UInt32.add_comm]
        rfl
      · exact UInt32.zero_add _

/-- As long as a scope is not cleared, it keeps what is in it. -/
theorem extends_performAll (t : Table) (faithful : ∀ op ∈ ops, op.Faithful)
    (uncleared : ∀ op ∈ ops, op.clears scope = false) :
    (t.bindings scope).Extends ((t.performAll ops).bindings scope) := by
  induction ops generalizing t with
  | nil => exact .refl _
  | cons op rest ih =>
      obtain ⟨hop, hrest⟩ := List.forall_mem_cons.1 faithful
      obtain ⟨hkept, hlater⟩ := List.forall_mem_cons.1 uncleared
      exact (extends_perform hop hkept).trans (ih (t.perform op) hrest hlater)

/-! ## Handles -/

/-- A table gives out a handle; the second table is the one behind that. -/
inductive Gives (t : Table) : Handle → Table → Prop
  | insert (name : String) (scope : Scope) (span : Span) :
      Gives t (t.insert name scope span).value.1 (t.insert name scope span).value.2
  | lookup {name : String} {scope : Scope} {h : Handle} (found : t.lookup name scope = some h) :
      Gives t h t
  | record (header : Header) (target : Scope) (isExtern : Bool) (role : Role) :
      Gives t (t.record header target isExtern role).value.1
        (t.record header target isExtern role).value.2

/-- A handle is good when it is given out. -/
theorem Gives.get? (given : t.Gives h t') : ∃ s, t'.get? h = some s := by
  cases given with
  | insert name scope span =>
      obtain ⟨s, hs, -⟩ := get?_insert_self (t := t) name scope span
      exact ⟨s, hs⟩
  | lookup found =>
      obtain ⟨-, s, hs, -⟩ := get?_of_lookup found
      exact ⟨s, hs⟩
  | record header target isExtern role =>
      obtain ⟨-, s, hs, -⟩ := record_callee t header target isExtern role
      exact ⟨s, hs⟩

theorem resolve_of_get? (hs : t.get? h = some s) : t.resolve h = .ok s := by
  unfold Table.get? at hs
  cases hr : t.resolve h with
  | ok s' =>
      rw [hr] at hs
      rw [Option.some.inj hs]
  | error fault =>
      rw [hr] at hs
      cases hs

/-- A handle of another generation refers to nothing, and nothing is rewritten through it. -/
theorem stale_of_generation (hne : (t.bindings h.scope).generation ≠ h.generation) :
    t.resolve h = .error (.stale h.scope h.generation (t.bindings h.scope).generation) ∧
      t.get? h = none ∧ ∀ f, t.modify h f = t := by
  have hstale : t.resolve h =
      .error (.stale h.scope h.generation (t.bindings h.scope).generation) := if_pos hne
  refine ⟨hstale, ?_, fun f => ?_⟩
  · rw [Table.get?, hstale]
    rfl
  · exact update_eq_self (if_neg hne)

/-- Adding to a word leaves it as it is for the multiples of `2 ^ 32` only. -/
theorem add_ofNat_eq_self_iff (g : UInt32) (k : Nat) : g + UInt32.ofNat k = g ↔ 2 ^ 32 ∣ k := by
  have hlt := g.toNat_lt
  rw [← UInt32.toNat_inj, UInt32.toNat_add, UInt32.toNat_ofNat']
  omega

/-- **A handle is good until its scope is cleared.** Whatever table gave it out and whatever is done
with the table behind that: as long as the scope of the handle is not cleared, the handle refers to
the symbol of the same declaration. From the first clearing on, it is stale, whatever symbol is now
in its place; only after `2 ^ 32` clearings, the generation is that of the handle again. -/
theorem good_until_cleared (given : t.Gives h t') {later : List Operation}
    (faithful : ∀ op ∈ later, op.Faithful) :
    let clearings := later.countP (·.clears h.scope)
    let now := t'.performAll later
    let current := (now.bindings h.scope).generation
    (clearings = 0 → ∃ s s', t'.get? h = some s ∧ now.resolve h = .ok s' ∧ s'.SameDeclaration s) ∧
      (0 < clearings → clearings < 2 ^ 32 →
        now.resolve h = .error (.stale h.scope h.generation current) ∧ current ≠ h.generation ∧
          now.get? h = none ∧ ∀ f, now.modify h f = now) ∧
      (clearings < 2 ^ 32 → ∀ scope index, now.resolve h ≠ .error (.missing scope index)) ∧
      (current = h.generation ↔ 2 ^ 32 ∣ clearings) := by
  intro clearings now current
  obtain ⟨s, hs⟩ := given.get?
  obtain ⟨hg, he⟩ := get?_eq_some_iff.1 hs
  have hcurrent : current = h.generation ↔ 2 ^ 32 ∣ clearings := by
    rw [← add_ofNat_eq_self_iff h.generation, ← hg]
    exact ⟨fun heq => heq ▸ (generation_performAll t' faithful h.scope).symm.trans heq, fun heq =>
      (generation_performAll t' faithful h.scope).trans heq⟩
  have hgood : clearings = 0 →
      ∃ s s', t'.get? h = some s ∧ now.resolve h = .ok s' ∧ s'.SameDeclaration s := by
    intro hnone
    have huncleared := List.countP_eq_zero.1 hnone
    have hextends := extends_performAll t' faithful fun op hop => by simpa using huncleared op hop
    obtain ⟨s', hs', hsame⟩ := hextends.symbol he
    refine ⟨s, s', hs, resolve_of_get? (get?_eq_some_iff.2 ⟨?_, hs'⟩), hsame⟩
    exact hextends.generation.trans hg
  have hstale : 0 < clearings → clearings < 2 ^ 32 → current ≠ h.generation := by
    intro hpos hlt heq
    have := Nat.le_of_dvd hpos (hcurrent.1 heq)
    omega
  refine ⟨hgood, fun hpos hlt => ?_, fun hlt scope index => ?_, hcurrent⟩
  · obtain ⟨hresolve, hnone, hmodify⟩ := stale_of_generation (hstale hpos hlt)
    exact ⟨hresolve, hstale hpos hlt, hnone, hmodify⟩
  · rcases Nat.eq_zero_or_pos clearings with hzero | hpos
    · obtain ⟨-, s', -, hs', -⟩ := hgood hzero
      rw [hs']
      exact nofun
    · rw [(stale_of_generation (hstale hpos hlt)).1]
      exact nofun

/-- Behind a clearing another name stands in the place of the first, whose handle is stale. -/
theorem good_until_cleared_replaced :
    let issued := Table.empty.insert "i" .local ⟨4, 1⟩
    let later : List Operation :=
      [.insert "g" .global ⟨6, 1⟩, .clear .local, .insert "j" .local ⟨8, 1⟩]
    let now := issued.value.2.performAll later
    Table.empty.Gives issued.value.1 issued.value.2 ∧ (∀ op ∈ later, op.Faithful) ∧
      now.resolve issued.value.1 = .error (.stale .local 1 2) ∧
      (now.resolve (now.handle .local issued.value.1.index)).toOption.map (·.name) = some "j" := by
  intro issued later now
  have given : Table.empty.Gives issued.value.1 issued.value.2 := .insert "i" .local ⟨4, 1⟩
  have faithful : ∀ op ∈ later, op.Faithful := by
    intro op hop
    simp only [later, List.mem_cons, List.not_mem_nil, or_false] at hop
    rcases hop with rfl | rfl | rfl <;> trivial
  have hissued : issued.value.1 = ⟨.local, 0, 1⟩ := by decide +kernel
  have hgeneration : (now.bindings .local).generation = 2 := by decide +kernel
  obtain ⟨-, hstale, -⟩ := good_until_cleared given faithful
  have hresolve := (hstale (by decide +kernel) (by decide +kernel)).1
  rw [hissued] at hresolve ⊢
  refine ⟨hissued ▸ given, faithful, ?_, by decide +kernel⟩
  rw [← hgeneration]
  exact hresolve

end Table

end Cmm
