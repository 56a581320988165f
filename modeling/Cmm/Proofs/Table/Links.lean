import Cmm.Proofs.Bindings
import Mathlib.Data.List.Basic

/-!
# Chains as links

A chain takes one head per bucket, and beside every symbol a link to the next older one of its
bucket.

* `Links` — heads and links; a new index is put in front of its chain by writing one head and one
  link.
* `Links.Visits` — following the links from some place visits a list of indices, all of them in
  range, and comes to an end.
* `Bindings.links` — the links that the chains of a scope amount to: an index is linked to the one
  that stands behind it on its chain. `links_clear`, `links_push`, `links_modify`: they change the
  way links do.
* `Bindings.visits_iff` — following the links from the head of a bucket visits its chain.
  `Bindings.links_older`: a link leads to a smaller index.
-/

set_option autoImplicit false

namespace Cmm

/-- The newest index of every bucket, and behind every index the next older one of its bucket. -/
@[ext]
structure Links where
  heads : Vector (Option Nat) bucketCount
  next : Array (Option Nat)

namespace Links

/-- No chain has an index. -/
def empty : Links := ⟨Vector.replicate bucketCount none, #[]⟩

/-- The newest index of a bucket. -/
def head (l : Links) (k : Fin bucketCount) : Option Nat := l.heads.get k

/-- The next index goes in front of the chain of a bucket. -/
def push (l : Links) (k : Fin bucketCount) : Links :=
  ⟨l.heads.set k (some l.next.size) k.isLt, l.next.push (l.head k)⟩

/-- From a place, the links lead through some indices to the end of a chain. -/
inductive Visits (l : Links) : Option Nat → List Nat → Prop
  | done : Visits l none []
  | step {i : Nat} {behind : Option Nat} {rest : List Nat} (link : l.next[i]? = some behind)
      (others : Visits l behind rest) : Visits l (some i) (i :: rest)

/-- From one place, the links lead one way. -/
theorem Visits.unique {l : Links} {place : Option Nat} {path path' : List Nat}
    (h : l.Visits place path) (h' : l.Visits place path') : path = path' := by
  induction h generalizing path' with
  | done =>
      cases h'
      rfl
  | step link _ ih =>
      cases h' with
      | step link' others' =>
          rw [link, Option.some.injEq] at link'
          subst link'
          rw [ih others']

end Links

namespace Bindings

variable {b : Bindings}

/-- The chain of a bucket. -/
def chain (b : Bindings) (k : Fin bucketCount) : List Nat := b.chains.get k

theorem Sound.mem_chain_iff (hb : b.Sound) {k : Fin bucketCount} {i : Nat} :
    i ∈ b.chain k ↔ ∃ s, b.entries[i]? = some s ∧ bucket s.name = k := hb.mem_chain k i

theorem Sound.chain_descending (hb : b.Sound) (k : Fin bucketCount) :
    (b.chain k).Pairwise (· > ·) := hb.descending k

theorem chain_push (s : Symbol) (k : Fin bucketCount) : (b.push s).chain k =
    if bucket s.name = k then b.entries.size :: b.chain k else b.chain k := chains_push s k

/-- What stands behind an index on a chain. -/
def behind (chain : List Nat) (i : Nat) : Option Nat := chain[chain.idxOf i + 1]?

theorem behind_split {newer : List Nat} {i : Nat} (hnew : i ∉ newer) (older : List Nat) :
    behind (newer ++ i :: older) i = older.head? := by
  have hplace : (newer ++ i :: older).idxOf i = newer.length := by
    rw [List.idxOf_append_of_notMem hnew, List.idxOf_cons_self, Nat.add_zero]
  rw [behind, hplace, List.getElem?_append_right (Nat.le_add_right _ 1), Nat.add_sub_cancel_left,
    List.getElem?_cons_succ, List.head?_eq_getElem?]

theorem behind_cons {i j : Nat} (hne : j ≠ i) (chain : List Nat) :
    behind (j :: chain) i = behind chain i := by
  rw [behind, List.idxOf_cons_ne chain hne, List.getElem?_cons_succ]
  rfl

/-- The links that the chains of a scope amount to: a head is the first index of its chain, and an
index is linked to what stands behind it. -/
def links (b : Bindings) : Links :=
  ⟨b.chains.map List.head?,
    b.entries.mapIdx fun i s => behind (b.chain (bucket s.name)) i⟩

theorem head_links (k : Fin bucketCount) : b.links.head k = (b.chain k).head? := by
  have hget : b.links.heads[k] = b.chains[k].head? := by simp [links]
  exact hget

theorem next_links {i : Nat} {next : Option Nat} : b.links.next[i]? = some next ↔
    ∃ s, b.entries[i]? = some s ∧ behind (b.chain (bucket s.name)) i = next := by
  simp [links]

/-- Indices on a chain are in range. -/
theorem Sound.lt_size (hb : b.Sound) {k : Fin bucketCount} {i : Nat} (hi : i ∈ b.chain k) :
    i < b.entries.size := by
  obtain ⟨s, hs, -⟩ := hb.mem_chain_iff.1 hi
  exact (Array.getElem?_eq_some_iff.1 hs).1

/-- Every symbol is once on the chain of its bucket, and on no other. -/
theorem Sound.count_chain (hb : b.Sound) {i : Nat} {s : Symbol} (hs : b.entries[i]? = some s)
    (k : Fin bucketCount) : (b.chain k).count i = if k = bucket s.name then 1 else 0 := by
  have hnodup : (b.chain k).Nodup := (hb.chain_descending k).imp fun h => by omega
  have hmem : i ∈ b.chain k ↔ k = bucket s.name := by
    rw [hb.mem_chain_iff]
    constructor
    · rintro ⟨s', hs', hk⟩
      rw [hs, Option.some.injEq] at hs'
      rw [hs', hk]
    · intro hk
      exact ⟨s, hs, hk.symm⟩
  rw [hnodup.count]
  simp only [hmem]

/-- What stands in front of an index on its chain is not this index. -/
theorem Sound.notMem_newer (hb : b.Sound) {k : Fin bucketCount} {i : Nat} {newer older : List Nat}
    (hsplit : b.chain k = newer ++ i :: older) : i ∉ newer := by
  intro hi
  have hdescending := hb.chain_descending k
  rw [hsplit, List.pairwise_append] at hdescending
  exact Nat.lt_irrefl i (hdescending.2.2 i hi i List.mem_cons_self)

/-- The part of a chain from some index on is what the links visit from there. -/
theorem visits_suffix (hb : b.Sound) {k : Fin bucketCount} {newer older : List Nat}
    (hsplit : b.chain k = newer ++ older) : b.links.Visits older.head? older := by
  induction older generalizing newer with
  | nil => exact .done
  | cons i rest ih =>
      have hmem : i ∈ b.chain k := by
        rw [hsplit]
        simp
      obtain ⟨s, hs, rfl⟩ := hb.mem_chain_iff.1 hmem
      have hlink : b.links.next[i]? = some rest.head? := by
        rw [next_links]
        refine ⟨s, hs, ?_⟩
        rw [hsplit, behind_split (hb.notMem_newer hsplit)]
      have hrest : b.chain (bucket s.name) = (newer ++ [i]) ++ rest := by simp [hsplit]
      exact .step hlink (ih hrest)

/-- **A link leads to a smaller index**, as chains descend. -/
theorem links_older (hb : b.Sound) {i j : Nat} (h : b.links.next[i]? = some (some j)) : j < i := by
  obtain ⟨s, hs, hbehind⟩ := next_links.1 h
  obtain ⟨newer, older, hsplit⟩ := List.append_of_mem (hb.mem_chain_iff.2 ⟨s, hs, rfl⟩)
  rw [hsplit, behind_split (hb.notMem_newer hsplit)] at hbehind
  have hdescending := hb.chain_descending (bucket s.name)
  rw [hsplit, List.pairwise_append, List.pairwise_cons] at hdescending
  exact hdescending.2.1.1 j (List.mem_of_head? hbehind)

/-- **Following the links from the head of a bucket visits its chain**, and nothing else. -/
theorem visits_iff (hb : b.Sound) (k : Fin bucketCount) {path : List Nat} :
    b.links.Visits (b.links.head k) path ↔ path = b.chain k := by
  have hchain : b.links.Visits (b.links.head k) (b.chain k) := by
    rw [head_links]
    exact visits_suffix hb (List.nil_append _).symm
  constructor
  · intro h
    exact h.unique hchain
  · rintro rfl
    exact hchain

/-! ## Changes -/

/-- Clearing leaves no head and no link. -/
@[simp] theorem links_clear (b : Bindings) : b.clear.links = .empty := by
  simp [links, clear, Links.empty]

/-- **A new symbol takes one head and one link.** -/
theorem links_push (b : Bindings) (s : Symbol) :
    (b.push s).links = b.links.push (bucket s.name) := by
  have hchain := @chain_push b s
  have hsize : b.links.next.size = b.entries.size := by simp [links]
  have hheads : (b.push s).links.heads = (b.links.push (bucket s.name)).heads := by
    apply Vector.ext
    intro j hj
    have hold : b.links.heads[j] = (b.chain ⟨j, hj⟩).head? := b.head_links ⟨j, hj⟩
    have hnew : (b.push s).links.heads[j] = ((b.push s).chain ⟨j, hj⟩).head? :=
      (b.push s).head_links ⟨j, hj⟩
    rw [hnew, hchain]
    simp only [Links.push, hsize, Vector.getElem_set]
    by_cases heq : bucket s.name = ⟨j, hj⟩
    · simp [heq]
    · have hne : (bucket s.name).val ≠ j := fun h => heq (Fin.ext h)
      rw [if_neg heq, if_neg hne, hold]
  have hnext : (b.push s).links.next = (b.links.push (bucket s.name)).next := by
    apply Array.ext_getElem?
    intro i
    apply Option.ext
    intro next
    rw [next_links, entries_push, Array.getElem?_push, Links.push, Array.getElem?_push, hsize]
    split
    · rename_i hi
      subst hi
      -- The new index is linked to what was the head of its chain.
      have hbehind : behind (b.entries.size :: b.chain (bucket s.name)) b.entries.size =
          (b.chain (bucket s.name)).head? := behind_split List.not_mem_nil _
      simp only [Option.some.injEq, exists_eq_left', hchain, if_pos, head_links, hbehind]
    · rename_i hi
      rw [next_links]
      -- An older index has the same behind it.
      have hbehind : ∀ (k : Fin bucketCount) (s' : Symbol), b.entries[i]? = some s' →
          behind ((b.push s).chain k) i = behind (b.chain k) i := by
        intro k s' hs'
        have hlt := (Array.getElem?_eq_some_iff.1 hs').1
        rw [hchain]
        split
        · exact behind_cons (Nat.ne_of_gt hlt) _
        · rfl
      constructor
      · rintro ⟨s', hs', rfl⟩
        exact ⟨s', hs', (hbehind _ s' hs').symm⟩
      · rintro ⟨s', hs', rfl⟩
        exact ⟨s', hs', hbehind _ s' hs'⟩
  exact Links.ext hheads hnext

/-- A change that renames nothing keeps every head and every link. -/
theorem links_modify (index : Nat) {f : Symbol → Symbol} (keeps : ∀ s, (f s).name = s.name) :
    (b.modify index f).links = b.links := by
  have hnext : (b.modify index f).links.next = b.links.next := by
    apply Array.ext_getElem?
    intro i
    apply Option.ext
    intro next
    rw [next_links, next_links, getElem?_modify]
    split
    · cases b.entries[i]? <;> simp [keeps, modify, chain]
    · rfl
  exact Links.ext rfl hnext

end Bindings

end Cmm
