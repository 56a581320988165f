import Cmm.Table

/-!
# One scope as a set of named symbols

* `Bindings.Sound` — the chain of a bucket lists the symbols whose names fall into it, newest first,
  and no name occurs twice.
* `Bindings.find?_eq_some_iff`, `Bindings.find?_eq_none_iff` — under the invariant the search
  through a chain is a search through all symbols.
* `Sound.empty`, `Sound.clear`, `Sound.push`, `Sound.modify` — every change of a scope keeps the
  invariant; `push` needs a new name, `modify` must not rename.
-/

set_option autoImplicit false

namespace Cmm.Bindings

variable {b : Bindings} {name : String}

/-- Every symbol is on the chain of its bucket, newest first, and has its name for itself. -/
structure Sound (b : Bindings) : Prop where
  mem_chain : ∀ (k : Fin bucketCount) (i : Nat),
    i ∈ b.chains[k] ↔ ∃ s, b.entries[i]? = some s ∧ bucket s.name = k
  descending : ∀ k : Fin bucketCount, b.chains[k].Pairwise (· > ·)
  distinct : ∀ {i j : Nat} {s s' : Symbol}, b.entries[i]? = some s → b.entries[j]? = some s' →
    s.name = s'.name → i = j

theorem isNamed_iff {i : Nat} :
    b.isNamed name i = true ↔ ∃ s, b.entries[i]? = some s ∧ s.name = name := by
  unfold isNamed
  cases b.entries[i]? <;> simp

theorem find?_eq_some_iff (hb : b.Sound) {i : Nat} :
    b.find? name = some i ↔ ∃ s, b.entries[i]? = some s ∧ s.name = name := by
  constructor
  · intro h
    exact isNamed_iff.1 (List.find?_some h)
  · rintro ⟨s, hs, rfl⟩
    have hmem : i ∈ b.chains[bucket s.name] := (hb.mem_chain _ _).2 ⟨s, hs, rfl⟩
    cases hf : b.find? s.name with
    | none =>
        have := List.find?_eq_none.1 hf i hmem
        exact absurd (isNamed_iff.2 ⟨s, hs, rfl⟩) this
    | some j =>
        obtain ⟨s', hs', hn⟩ := isNamed_iff.1 (List.find?_some hf)
        rw [hb.distinct hs' hs hn]

theorem find?_eq_none_iff (hb : b.Sound) :
    b.find? name = none ↔ ∀ (i : Nat) (s : Symbol), b.entries[i]? = some s → s.name ≠ name := by
  constructor
  · intro h i s hs hn
    rw [(find?_eq_some_iff hb).2 ⟨s, hs, hn⟩] at h
    cases h
  · intro h
    cases hf : b.find? name with
    | none => rfl
    | some i =>
        obtain ⟨s, hs, hn⟩ := (find?_eq_some_iff hb).1 hf
        exact absurd hn (h i s hs)

/-! ## Changes -/

/-- A scope without symbols is sound whatever its generation. -/
theorem Sound.nil (generation : UInt32) :
    Sound ⟨#[], Vector.replicate bucketCount [], generation⟩ :=
  ⟨fun k i => by simp, fun k => by simp, fun h => by simp at h⟩

theorem Sound.empty : Sound .empty := Sound.nil 1

theorem Sound.clear (b : Bindings) : b.clear.Sound := Sound.nil _

theorem entries_push (s : Symbol) : (b.push s).entries = b.entries.push s := rfl

/-- A new symbol stands in front of the chain of its bucket. -/
theorem chains_push (s : Symbol) (k : Fin bucketCount) : (b.push s).chains[k] =
    if bucket s.name = k then b.entries.size :: b.chains[k] else b.chains[k] := by
  simp only [Bindings.push, Fin.getElem_fin, Vector.getElem_set, Fin.val_inj]
  split
  · rename_i h
    subst h
    rfl
  · rfl

theorem Sound.push (hb : b.Sound) {s : Symbol} (fresh : b.find? s.name = none) :
    (b.push s).Sound := by
  have hnew := (find?_eq_none_iff hb).1 fresh
  have hlt : ∀ k : Fin bucketCount, ∀ i ∈ b.chains[k], i < b.entries.size := by
    intro k i hi
    obtain ⟨s', hs', -⟩ := (hb.mem_chain k i).1 hi
    exact (Array.getElem?_eq_some_iff.1 hs').1
  have hchain := chains_push (b := b) s
  refine ⟨?_, ?_, ?_⟩
  · intro k i
    rw [hchain, entries_push, Array.getElem?_push]
    by_cases hi : i = b.entries.size
    · subst hi
      have : b.entries.size ∉ b.chains[k] := fun h => Nat.lt_irrefl _ (hlt k _ h)
      split <;> simp_all
    · have := hb.mem_chain k i
      split <;> simp_all
  · intro k
    rw [hchain]
    split
    · exact List.pairwise_cons.2 ⟨hlt k, hb.descending k⟩
    · exact hb.descending k
  · intro i j si sj hi hj hn
    rw [entries_push, Array.getElem?_push] at hi hj
    split at hi <;> split at hj
    · omega
    · cases hi
      exact absurd hn.symm (hnew j sj hj)
    · cases hj
      exact absurd hn (hnew i si hi)
    · exact hb.distinct hi hj hn

theorem getElem?_modify (index i : Nat) (f : Symbol → Symbol) :
    (b.modify index f).entries[i]? = if index = i then b.entries[i]?.map f else b.entries[i]? := by
  simp only [Bindings.modify, Array.getElem?_modify]

theorem Sound.modify (hb : b.Sound) (index : Nat) {f : Symbol → Symbol}
    (keeps : ∀ s, (f s).name = s.name) : (b.modify index f).Sound := by
  -- Every index keeps its name, and the invariant speaks of names only.
  have hnames : ∀ (i : Nat) (s' : Symbol), (b.modify index f).entries[i]? = some s' →
      ∃ s, b.entries[i]? = some s ∧ s.name = s'.name := by
    intro i s' h
    rw [getElem?_modify] at h
    split at h
    · obtain ⟨s, hs, rfl⟩ := Option.map_eq_some_iff.1 h
      exact ⟨s, hs, (keeps s).symm⟩
    · exact ⟨s', h, rfl⟩
  refine ⟨?_, hb.descending, ?_⟩
  · intro k i
    rw [show (b.modify index f).chains = b.chains from rfl, hb.mem_chain, getElem?_modify]
    split
    · cases b.entries[i]? <;> simp [keeps]
    · rfl
  · intro i j si sj hi hj hn
    obtain ⟨ti, hti, hni⟩ := hnames i si hi
    obtain ⟨tj, htj, hnj⟩ := hnames j sj hj
    exact hb.distinct hti htj (by rw [hni, hnj, hn])

end Cmm.Bindings
