import Mathlib.Data.List.Nodup
import Cmm.Proofs.Env

/-!
# The names of a scope

* `Bindings.names` — the names of a scope in the order of their declaration. No name occurs twice,
  and the search for a name finds its place among them.
* `Table.Lists` — a scope holds the names of a list, each at its first occurrence. One lemma per
  change of a table says how the list goes on: to declare a name puts it behind the list, whether it
  is new or not.
* `Table.Lists.record` — a header declares its name in the program and its parameters in the scope
  they go to.
-/

set_option autoImplicit false

namespace Cmm

namespace Bindings

variable {b : Bindings} {name : String}

/-- The names of a scope in the order of their declaration. -/
def names (b : Bindings) : List String := b.entries.toList.map (·.name)

theorem getElem?_names (i : Nat) : b.names[i]? = b.entries[i]?.map (·.name) := by
  simp [names]

theorem getElem?_names_eq_some_iff {i : Nat} :
    b.names[i]? = some name ↔ ∃ s, b.entries[i]? = some s ∧ s.name = name := by
  rw [getElem?_names, Option.map_eq_some_iff]

theorem mem_names : name ∈ b.names ↔ ∃ (i : Nat) (s : Symbol), b.entries[i]? = some s ∧
    s.name = name := by
  rw [List.mem_iff_getElem?]
  simp only [getElem?_names_eq_some_iff]

theorem nodup_names (hb : b.Sound) : b.names.Nodup := by
  rw [List.nodup_iff_getElem?_ne_getElem?]
  intro i j hij hj heq
  have hi : i < b.names.length := by omega
  obtain ⟨s, hs, hn⟩ := getElem?_names_eq_some_iff.1 (List.getElem?_eq_getElem hi)
  rw [List.getElem?_eq_getElem hi] at heq
  obtain ⟨s', hs', hn'⟩ := getElem?_names_eq_some_iff.1 heq.symm
  have := hb.distinct hs hs' (hn.trans hn'.symm)
  omega

theorem find?_eq_some_iff_names (hb : b.Sound) {i : Nat} :
    b.find? name = some i ↔ b.names[i]? = some name := by
  rw [find?_eq_some_iff hb, getElem?_names_eq_some_iff]

theorem find?_eq_none_iff_names (hb : b.Sound) : b.find? name = none ↔ name ∉ b.names := by
  rw [find?_eq_none_iff hb, mem_names]
  constructor
  · rintro h ⟨i, s, hs, hn⟩
    exact h i s hs hn
  · intro h i s hs hn
    exact h ⟨i, s, hs, hn⟩

theorem names_push (b : Bindings) (s : Symbol) : (b.push s).names = b.names ++ [s.name] := by
  simp [names, entries_push]

theorem names_modify (index : Nat) {f : Symbol → Symbol} (keeps : ∀ s, (f s).name = s.name) :
    (b.modify index f).names = b.names := by
  apply List.ext_getElem?
  intro i
  rw [getElem?_names, getElem?_names, getElem?_modify]
  split
  · cases b.entries[i]? <;> simp [keeps]
  · rfl

end Bindings

/-- One element more changes the elements without repetitions only if it is new. -/
theorem eraseDups_concat (xs : List String) (x : String) :
    (xs ++ [x]).eraseDups = if x ∈ xs then xs.eraseDups else xs.eraseDups ++ [x] := by
  rw [List.eraseDups_append]
  split
  · rename_i h
    simp [List.removeAll, h]
  · rename_i h
    simp [List.removeAll, h, List.eraseDups_cons]

/-- The name that a parameter declares; a parameter of type `void` declares none. -/
def Param.declares (p : Param) : List String := if p.spec = .void then [] else [p.name]

/-- The names that a header declares in a scope, where its parameters go to `target`. -/
def Header.declares (h : Header) (target scope : Scope) : List String :=
  (if scope = .global then [h.name] else []) ++
    if target = scope then h.params.flatMap Param.declares else []

namespace Table

variable {t : Table} {scope : Scope} {xs : List String}

/-- A scope holds the names of a list, each at its first occurrence. -/
def Lists (t : Table) (scope : Scope) (xs : List String) : Prop :=
  (t.bindings scope).names = xs.eraseDups

theorem Lists.mem_iff (h : t.Lists scope xs) {name : String} :
    name ∈ (t.bindings scope).names ↔ name ∈ xs := by
  rw [h, List.mem_eraseDups]

theorem Lists.empty (scope : Scope) : Table.empty.Lists scope [] := by
  cases scope <;> rfl

theorem Lists.clear (t : Table) (scope : Scope) : (t.clear scope).Lists scope [] := by
  show ((t.update scope .clear).bindings scope).names = _
  rw [bindings_update, if_pos rfl]
  rfl

theorem Lists.clear_other {target : Scope} (h : t.Lists scope xs) (hne : target ≠ scope) :
    (t.clear target).Lists scope xs := by
  show ((t.update target .clear).bindings scope).names = _
  rw [bindings_update, if_neg hne]
  exact h

theorem Lists.modify (h : t.Lists scope xs) (handle : Handle) {f : Symbol → Symbol}
    (keeps : ∀ s, (f s).name = s.name) : (t.modify handle f).Lists scope xs := by
  unfold Lists
  rcases bindings_modify_cases t handle f scope with hb | hb <;> rw [hb]
  · exact h
  · rw [Bindings.names_modify _ keeps]
    exact h

/-- A name that is declared stands behind the list, in its own scope only. -/
theorem Lists.insert (ht : t.Chained) (h : t.Lists scope xs) (name : String) (target : Scope)
    (span : Span) : (t.insert name target span).value.2.Lists scope
      (xs ++ if target = scope then [name] else []) := by
  unfold Lists
  split
  · rename_i heq
    subst heq
    rw [eraseDups_concat, ← h]
    cases hf : (t.bindings target).find? name with
    | some i =>
        have hmem : name ∈ xs := by
          rw [← h.mem_iff]
          exact List.mem_of_getElem? ((Bindings.find?_eq_some_iff_names (ht target)).1 hf)
        rw [(insert_of_some hf).1, if_pos hmem]
    | none =>
        have hmem : name ∉ xs := by
          rw [← h.mem_iff]
          exact (Bindings.find?_eq_none_iff_names (ht target)).1 hf
        rw [(insert_of_none hf).1, if_neg hmem, bindings_update, if_pos rfl, Bindings.names_push]
        rfl
  · rename_i hne
    rw [List.append_nil, ← h]
    cases hf : (t.bindings target).find? name with
    | some i => rw [(insert_of_some hf).1]
    | none => rw [(insert_of_none hf).1, bindings_update, if_neg hne]

/-! ## Headers -/

/-- The name of a header is one of the program, whether the header brings it there or not. -/
theorem Lists.claim (ht : t.Chained) (h : t.Lists scope xs) (header : Header) (role : Role) :
    (t.claim header role).value.2.1.Lists scope
      (xs ++ if scope = .global then [header.name] else []) := by
  obtain ⟨writes, hvalue⟩ | ⟨callee, writes, hl, hvalue⟩ := t.claim_cases header role
  · have hinsert := h.insert ht header.name .global header.span
    simp only [@eq_comm _ Scope.global] at hinsert
    rw [hvalue]
    exact hinsert
  · rw [hvalue]
    unfold Lists
    split
    · rename_i hg
      subst hg
      obtain ⟨i, hi, -⟩ := Option.map_eq_some_iff.1 hl
      have hmem := List.mem_of_getElem? ((Bindings.find?_eq_some_iff_names (ht .global)).1 hi)
      rw [eraseDups_concat, if_pos (h.mem_iff.1 hmem)]
      exact h
    · rw [List.append_nil]
      exact h

theorem Lists.addFormal (ht : t.Chained) (h : t.Lists scope xs) (target : Scope) (p : Param) :
    (t.addFormal target p).value.2.Lists scope
      (xs ++ if target = scope then p.declares else []) := by
  unfold Table.addFormal Param.declares
  split
  · simpa using h
  · exact (h.insert ht p.name target p.span).modify _ fun _ => rfl

theorem Lists.addFormals (ht : t.Chained) (h : t.Lists scope xs) (target : Scope)
    (ps : List Param) : (t.addFormals target ps).value.2.Lists scope
      (xs ++ if target = scope then ps.flatMap Param.declares else []) := by
  induction ps generalizing t xs with
  | nil =>
      rw [List.flatMap_nil, ite_self, List.append_nil]
      exact h
  | cons p rest ih =>
      have hrest := ih ((growths_addFormal t target p).edits.chained ht) (h.addFormal ht target p)
      rw [List.append_assoc] at hrest
      rw [List.flatMap_cons]
      show (Table.addFormals _ target rest).value.2.Lists scope _
      split
      · rename_i heq
        simpa only [if_pos heq] using hrest
      · rename_i hne
        simpa only [if_neg hne, List.append_nil] using hrest

theorem Lists.record (ht : t.Chained) (h : t.Lists scope xs) (header : Header) (target : Scope)
    (isExtern : Bool) (role : Role) : (t.record header target isExtern role).value.2.Lists scope
      (xs ++ header.declares target scope) := by
  obtain ⟨-, hvalue, -⟩ := record_eq t header target isExtern role
  have hformals := (h.claim ht header role).addFormals
    ((growths_claim t header role).edits.chained ht) target header.params
  rw [List.append_assoc] at hformals
  rw [hvalue]
  split
  · exact hformals.modify _ fun _ => rfl
  · exact hformals

end Table

end Cmm
