import Cmm.Proofs.Signatures

/-!
# Symbols that are declared to the end

A name enters the program without a type, and its declaration completes it in several steps.

* `Symbol.Complete` — a scalar, an array of some size, or a function with its signature, and never a
  parameter.
* `Bindings.Settled` — every symbol of the program is complete, and the functions that are defined
  are those of a list of handles, each of them once.
* `Settled.push`, `Settled.modify` — a complete symbol may come, and a function may be defined.
* `Table.settled_record` — a header that is entered without a report settles its function.
-/

set_option autoImplicit false

namespace Cmm

/-- A parameter as signatures keep it is local, and a scalar or an array. -/
structure Formal.Complete (f : Formal) : Prop where
  isFormal : f.isFormal = true
  scope : f.scope = .local
  ty : ∃ scalar : Scalar, f.ty = scalar.ty ∨ f.ty = .array scalar

/-- The signature of a prototype or of a definition; a definition is not external. -/
structure Signature.Complete (sig : Signature) : Prop where
  standing : sig.standing = .prototyped ∨ sig.standing = .defined
  formals : ∀ f ∈ sig.formals, f.Complete
  internal : sig.standing = .defined → sig.isExtern = false

/-- What belongs to a symbol of the program by its type: a scalar has neither a size nor a
signature, an array has a size, a function has a signature. No other type occurs. -/
def Symbol.Complete (s : Symbol) : Prop :=
  s.isFormal = false ∧
    match s.ty with
    | .int | .char => s.count? = none ∧ s.signature? = none
    | .array _ => (∃ count, s.count? = some count) ∧ s.signature? = none
    | .function => s.count? = none ∧ ∃ sig, s.signature? = some sig ∧ sig.Complete
    | .void | .bool | .error => False

namespace Symbol

variable {s : Symbol}

/-- Only a function has a signature. -/
theorem Complete.of_signature (hs : s.Complete) {sig : Signature} (hsig : s.signature? = some sig) :
    s.ty = .function ∧ s.count? = none ∧ sig.Complete := by
  obtain ⟨-, hkind⟩ := hs
  cases hty : s.ty with
  | function =>
      rw [hty] at hkind
      obtain ⟨hcount, sig', hsig', hcomplete⟩ := hkind
      rw [hsig, Option.some.injEq] at hsig'
      exact ⟨rfl, hcount, hsig' ▸ hcomplete⟩
  | int | char | array =>
      rw [hty] at hkind
      have hnone := hkind.2
      rw [hsig] at hnone
      cases hnone
  | void | bool | error =>
      rw [hty] at hkind
      exact hkind.elim

theorem standing_of_signature {sig : Signature} (hsig : s.signature? = some sig) :
    s.standing = sig.standing := by
  unfold standing
  rw [hsig]
  rfl

end Symbol

/-! ## Headers -/

theorem Param.complete_formal {p : Param} (hp : p.spec ≠ .void) :
    (⟨p.name, .local, true, p.ty⟩ : Formal).Complete := by
  refine ⟨rfl, rfl, ?_⟩
  unfold Param.ty
  cases hspec : p.spec with
  | void => exact absurd hspec hp
  | int =>
      refine ⟨.int, ?_⟩
      cases p.isArray
      · exact .inl rfl
      · exact .inr rfl
  | char =>
      refine ⟨.char, ?_⟩
      cases p.isArray
      · exact .inl rfl
      · exact .inr rfl

namespace Header

variable {h : Header} {role : Role} {isExtern : Bool}

theorem complete_signature (internal : role = .definition → isExtern = false) :
    (h.signature role isExtern).Complete := by
  refine ⟨?_, ?_, ?_⟩
  · cases role
    · exact .inl rfl
    · exact .inr rfl
  · intro f hf
    obtain ⟨p, hp, rfl⟩ := List.mem_map.1 hf
    exact Param.complete_formal (of_decide_eq_true (List.mem_filter.1 hp).2)
  · cases role
    · intro hdefined
      cases hdefined
    · exact fun _ => internal rfl

theorem complete_symbol (internal : role = .definition → isExtern = false) :
    (h.symbol role isExtern).Complete :=
  ⟨rfl, rfl, _, rfl, complete_signature internal⟩

end Header

/-! ## Programs -/

namespace Bindings

variable {b b' : Bindings} {handed : List Handle} {s : Symbol} {i : Nat}

/-- The handle to an index of the program. -/
def globalHandle (b : Bindings) (i : Nat) : Handle := ⟨.global, i, b.generation⟩

/-- Every symbol of the program is complete, and the functions that are defined are those of some
handles, each of them once. -/
structure Settled (b : Bindings) (handed : List Handle) : Prop where
  sound : b.Sound
  complete : ∀ (i : Nat) (s : Symbol), b.entries[i]? = some s → s.Complete
  nodup : handed.Nodup
  mem_iff : ∀ h : Handle, h ∈ handed ↔ h.scope = .global ∧ h.generation = b.generation ∧
    ∃ s, b.entries[h.index]? = some s ∧ s.standing = .defined

theorem Settled.empty : Bindings.empty.Settled [] :=
  ⟨.empty, fun i s hs => by simp [Bindings.empty] at hs, List.nodup_nil,
    fun h => by simp [Bindings.empty]⟩

theorem eq_globalHandle_iff {h : Handle} : h = b.globalHandle i ↔
    h.scope = .global ∧ h.generation = b.generation ∧ h.index = i := by
  constructor
  · rintro rfl
    exact ⟨rfl, rfl, rfl⟩
  · rintro ⟨hscope, hgeneration, hindex⟩
    cases h
    cases hscope
    cases hgeneration
    cases hindex
    rfl

/-- A complete symbol may come, and may stand where no function was defined; if it is a defined
function itself, its handle is one more. -/
theorem Settled.set (h : b.Settled handed) (sound : b'.Sound)
    (generation : b'.generation = b.generation)
    (pending : ∀ s, b.entries[i]? = some s → s.standing ≠ .defined)
    (entries : ∀ j, b'.entries[j]? = if j = i then some s else b.entries[j]?) (hs : s.Complete) :
    b'.Settled (handed ++ if s.standing = .defined then [b'.globalHandle i] else []) := by
  have hnew : ∀ x ∈ handed, x.index ≠ i := by
    rintro x hx rfl
    obtain ⟨-, -, s', hs', hdefined⟩ := (h.mem_iff x).1 hx
    exact pending s' hs' hdefined
  refine ⟨sound, ?_, ?_, ?_⟩
  · intro j s' hs'
    rw [entries] at hs'
    split at hs'
    · cases hs'
      exact hs
    · exact h.complete j s' hs'
  · split
    · refine List.nodup_append.2 ⟨h.nodup, List.nodup_singleton _, ?_⟩
      rintro x hx y hy rfl
      rw [List.mem_singleton.1 hy] at hx
      exact hnew _ hx rfl
    · rw [List.append_nil]
      exact h.nodup
  · intro x
    rw [List.mem_append, entries]
    by_cases hindex : x.index = i
    · rw [if_pos hindex]
      constructor
      · rintro (hx | hx)
        · exact absurd hindex (hnew x hx)
        · split at hx
          · rename_i hdefined
            obtain ⟨hscope, hgeneration, -⟩ := eq_globalHandle_iff.1 (List.mem_singleton.1 hx)
            exact ⟨hscope, hgeneration, s, rfl, hdefined⟩
          · cases hx
      · rintro ⟨hscope, hgeneration, s', hs', hdefined⟩
        cases hs'
        rw [if_pos hdefined]
        exact .inr (List.mem_singleton.2 (eq_globalHandle_iff.2 ⟨hscope, hgeneration, hindex⟩))
    · rw [if_neg hindex, generation, ← h.mem_iff x]
      refine or_iff_left fun hx => ?_
      split at hx
      · exact hindex (eq_globalHandle_iff.1 (List.mem_singleton.1 hx)).2.2
      · cases hx

/-- A new symbol that is complete. -/
theorem Settled.push (h : b.Settled handed) (fresh : b.find? s.name = none) (hs : s.Complete) :
    (b.push s).Settled
      (handed ++ if s.standing = .defined then [b.globalHandle b.entries.size] else []) := by
  refine h.set (h.sound.push fresh) rfl ?_ ?_ hs
  · intro s' hs'
    rw [Array.getElem?_eq_none (Nat.le_refl _)] at hs'
    cases hs'
  · intro j
    rw [entries_push, Array.getElem?_push]

/-- A symbol that was no defined function may change to a complete one. -/
theorem Settled.modify (h : b.Settled handed) {f : Symbol → Symbol}
    (keeps : ∀ s, (f s).name = s.name) (hs : b.entries[i]? = some s)
    (pending : s.standing ≠ .defined) (complete : (f s).Complete) :
    (b.modify i f).Settled
      (handed ++ if (f s).standing = .defined then [b.globalHandle i] else []) := by
  refine h.set (h.sound.modify i keeps) rfl ?_ ?_ complete
  · intro s' hs'
    rw [hs, Option.some.injEq] at hs'
    exact hs' ▸ pending
  · intro j
    rw [getElem?_modify]
    split
    · rename_i heq
      rw [if_pos heq.symm, ← heq, hs]
      rfl
    · rename_i hne
      rw [if_neg (Ne.symm hne)]

/-- A header that is entered without a report declares or defines its function. -/
theorem Enters.settled {header : Header} {role : Role} {isExtern : Bool}
    {reports : List (Report SemanticFault)} (he : b.Enters header role isExtern b' reports)
    (h : b.Settled handed) (quiet : reports = [])
    (internal : role = .definition → isExtern = false) :
    ∃ i, b'.find? header.name = some i ∧
      b'.Settled (handed ++ if role = .definition then [b'.globalHandle i] else []) := by
  have hstanding : ∀ s : Symbol, s.signature? = some (header.signature role isExtern) →
      (s.standing = .defined ↔ role = .definition) := by
    intro s hs
    rw [Symbol.standing_of_signature hs]
    cases role with
    | prototype => exact iff_of_false (fun h => nomatch h) fun h => nomatch h
    | definition => exact iff_of_true rfl rfl
  cases he with
  | added new =>
      refine ⟨b.entries.size, (find?_push h.sound new).trans (if_pos rfl), ?_⟩
      have hpush := h.push new (Header.complete_symbol internal)
      simp only [hstanding (header.symbol role isExtern) rfl] at hpush
      exact hpush
  | @completed _ i sig known declared pending defines =>
      let sign : Symbol → Symbol := fun s =>
        { s with ty := .function, signature? := some (header.signature role isExtern) }
      have keeps : ∀ s, (sign s).name = s.name := fun _ => rfl
      refine ⟨i, (find?_modify h.sound i keeps).trans known, ?_⟩
      obtain ⟨s, hs, -⟩ := (find?_eq_some_iff h.sound).1 known
      have hsig : s.signature? = some sig := (signature?_of_find? known hs).symm.trans declared
      have hstarted : s.standing ≠ .defined := by
        rw [Symbol.standing_of_signature hsig, pending]
        decide
      obtain ⟨-, hcount, -⟩ := (h.complete i s hs).of_signature hsig
      have hcomplete : (sign s).Complete :=
        ⟨(h.complete i s hs).1, hcount, _, rfl, Header.complete_signature internal⟩
      have hmodify := h.modify keeps hs hstarted hcomplete
      simp only [hstanding (sign s) rfl] at hmodify
      exact hmodify
  | refused known settled reported =>
      rw [quiet] at reported
      cases reported

end Bindings

/-- The handles of a settled program are those of its defined functions. -/
theorem Table.mem_handed_iff {t : Table} {handed : List Handle}
    (hsettled : t.globals.Settled handed) {h : Handle} :
    h ∈ handed ↔ h.scope = .global ∧ ∃ s, t.get? h = some s ∧ s.standing = .defined := by
  rw [hsettled.mem_iff]
  refine and_congr_right fun hglobal => ?_
  have hget : ∀ s, t.get? h = some s ↔
      t.globals.generation = h.generation ∧ t.globals.entries[h.index]? = some s := by
    intro s
    rw [get?_eq_some_iff, hglobal]
    rfl
  constructor
  · rintro ⟨hgeneration, s, hs, hdefined⟩
    exact ⟨s, (hget s).2 ⟨hgeneration.symm, hs⟩, hdefined⟩
  · rintro ⟨s, hs, hdefined⟩
    obtain ⟨hgeneration, hentry⟩ := (hget s).1 hs
    exact ⟨hgeneration.symm, s, hentry, hdefined⟩

/-- A header that is entered without a report leaves every symbol complete; a definition is one
more that is defined. -/
theorem Table.settled_record {t : Table} {handed : List Handle} (hp : t.Placed)
    (hsettled : t.globals.Settled handed) (header : Header) {isExtern : Bool} {role : Role}
    (quiet : (t.record header .local isExtern role).reports = [])
    (internal : role = .definition → isExtern = false) :
    (t.record header .local isExtern role).value.2.globals.Settled (handed ++
      if role = .definition then [(t.record header .local isExtern role).value.1] else []) := by
  obtain ⟨i, hi, hnext⟩ :=
    (enters_record hp header isExtern role).settled hsettled quiet internal
  obtain ⟨hglobal, s, hs, hname⟩ := t.record_callee header .local isExtern role
  -- The name of the header has one symbol, so the handle that is given is the one to it.
  have hcallee : (t.record header .local isExtern role).value.1 =
      (t.record header .local isExtern role).value.2.globals.globalHandle i := by
    obtain ⟨hgeneration, hentry⟩ := get?_eq_some_iff.1 hs
    rw [hglobal] at hgeneration hentry
    have hfound := (Bindings.find?_eq_some_iff hnext.sound).2 ⟨s, hentry, hname⟩
    rw [hi, Option.some.injEq] at hfound
    exact Bindings.eq_globalHandle_iff.2 ⟨hglobal, hgeneration.symm, hfound.symm⟩
  rw [hcallee]
  exact hnext

end Cmm
