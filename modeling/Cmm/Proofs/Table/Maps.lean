import Mathlib
import Cmm.Proofs.Table.Links
import Cmm.Proofs.Table.Names

/-!
# The symbol table as two ordered maps

* `Bindings.Maps` — a scope with its buckets, chains and links is a finite map from names to
  symbols, in the order in which the names were inserted.
* `Bindings.symbols_eq`, `Bindings.symbols_perm` — a listing goes through the buckets in increasing
  order, newest first in each, and meets every symbol once.
* `Table.Operation` — what can be done with a table, in any order. `Operation.declared` are the
  names that some operations insert into a scope after its last clearing.
* `Table.refines_ordered_maps` — after any operations, each scope is the ordered map of the names
  that are declared in it, and looking up and inserting go by these names only.
-/

set_option autoImplicit false

namespace Cmm

namespace Bindings

variable {b : Bindings}

/-! ## Listings -/

theorem chains_toList (b : Bindings) :
    b.chains.toList = (List.finRange bucketCount).map fun k => b.chain k := by
  apply List.ext_getElem
  · simp
  · intro i h h'
    simp [chain, Vector.get]

/-- Going through the indices of a list is going through the list. -/
theorem filterMap_range_getElem? {α : Type} (xs : List α) (p : α → Bool) :
    (List.range xs.length).filterMap (fun i => xs[i]?.filter p) = xs.filter p := by
  have hsome : (List.range xs.length).map (xs[·]?) = xs.map some := by
    apply List.ext_getElem
    · simp
    · intro i h h'
      simp
  calc (List.range xs.length).filterMap (fun i => xs[i]?.filter p)
      = ((List.range xs.length).map (xs[·]?)).filterMap (Option.filter p) := by
        rw [List.filterMap_map]
        rfl
    _ = xs.filterMap (Option.filter p ∘ some) := by rw [hsome, List.filterMap_map]
    _ = xs.filter p := by
        rw [← List.filterMap_eq_filter]
        rfl

/-- A chain lists the indices of its bucket, from the newest to the oldest. -/
theorem chain_eq (hb : b.Sound) (k : Fin bucketCount) : b.chain k =
    ((List.range b.entries.size).filter fun i =>
      b.entries[i]?.any (bucket ·.name = k)).reverse := by
  refine List.Pairwise.eq_of_mem_iff (r := (· > ·)) (hb.chain_descending k) ?_ ?_
  · rw [List.pairwise_reverse]
    exact List.Pairwise.filter _ List.pairwise_lt_range
  · intro i
    rw [List.mem_reverse, List.mem_filter, List.mem_range, hb.mem_chain_iff]
    constructor
    · rintro ⟨s, hs, hk⟩
      exact ⟨(Array.getElem?_eq_some_iff.1 hs).1, by simp [hs, hk]⟩
    · rintro ⟨hlt, hany⟩
      rw [Array.getElem?_eq_getElem hlt] at hany
      exact ⟨b.entries[i], Array.getElem?_eq_getElem hlt, by simpa using hany⟩

/-- **A listing goes through the buckets in increasing order**, newest first in each. -/
theorem symbols_eq (hb : b.Sound) : b.symbols = (List.finRange bucketCount).flatMap fun k =>
    (b.entries.toList.filter (bucket ·.name = k)).reverse := by
  unfold symbols
  rw [chains_toList, List.flatMap_map]
  congr 1
  funext k
  rw [chain_eq hb k, List.filterMap_reverse, List.filterMap_filter,
    ← filterMap_range_getElem?, Array.length_toList]
  congr 2
  funext i
  rw [Array.getElem?_toList]
  cases b.entries[i]? with
  | none => simp
  | some s => by_cases hk : bucket s.name = k <;> simp [Option.filter, hk]

/-- The chains together hold every index once. -/
theorem flatten_chains_perm (hb : b.Sound) :
    b.chains.toList.flatten.Perm (List.range b.entries.size) := by
  have hnodup : b.chains.toList.flatten.Nodup := by
    rw [chains_toList, List.nodup_flatten, List.pairwise_map]
    constructor
    · intro chain hchain
      obtain ⟨k, -, rfl⟩ := List.mem_map.1 hchain
      exact (hb.chain_descending k).imp fun h => by omega
    · refine (List.nodup_finRange bucketCount).imp fun hne => ?_
      intro i hi hi'
      obtain ⟨s, hs, hk⟩ := hb.mem_chain_iff.1 hi
      obtain ⟨s', hs', hk'⟩ := hb.mem_chain_iff.1 hi'
      rw [hs, Option.some.injEq] at hs'
      exact hne (by rw [← hk, ← hk', hs'])
  rw [List.perm_ext_iff_of_nodup hnodup List.nodup_range]
  intro i
  rw [chains_toList, List.mem_flatten, List.mem_range]
  constructor
  · rintro ⟨chain, hchain, hi⟩
    obtain ⟨k, -, rfl⟩ := List.mem_map.1 hchain
    exact hb.lt_size hi
  · intro hlt
    have hs := Array.getElem?_eq_getElem hlt
    exact ⟨_, List.mem_map.2 ⟨bucket b.entries[i].name, List.mem_finRange _, rfl⟩,
      hb.mem_chain_iff.2 ⟨_, hs, rfl⟩⟩

/-- **A listing meets every symbol once.** -/
theorem symbols_perm (hb : b.Sound) : b.symbols.Perm b.entries.toList := by
  have hall : (List.range b.entries.size).filterMap (b.entries[·]?) = b.entries.toList := by
    have h := filterMap_range_getElem? b.entries.toList fun _ => true
    rw [List.filter_true, Array.length_toList] at h
    rw [← h]
    congr 1
    funext i
    rw [Array.getElem?_toList]
    cases b.entries[i]? <;> rfl
  have hlisted := (flatten_chains_perm hb).filterMap (b.entries[·]?)
  rw [hall, List.filterMap_flatten] at hlisted
  exact hlisted

/-! ## Scopes as maps -/

/-- A scope with its chains is the finite map of some names, in the order of their insertion. -/
structure Maps (b : Bindings) (names : List String) : Prop where
  keys : b.names = names
  distinct : names.Nodup
  /-- The search for a name finds its place. -/
  found : ∀ (name : String) (i : Nat), b.find? name = some i ↔ names[i]? = some name
  /-- Every symbol is once on the chain of its bucket, and on no other. -/
  on_chain : ∀ (i : Nat) (s : Symbol), b.entries[i]? = some s → ∀ k : Fin bucketCount,
    (b.chain k).count i = if k = bucket s.name then 1 else 0
  in_range : ∀ (k : Fin bucketCount), ∀ i ∈ b.chain k, i < b.entries.size
  /-- A link leads to a smaller index. -/
  older : ∀ i j : Nat, b.links.next[i]? = some (some j) → j < i
  /-- Following the links from the head of a bucket ends, and visits its chain. -/
  visits : ∀ (k : Fin bucketCount) (path : List Nat),
    b.links.Visits (b.links.head k) path ↔ path = b.chain k
  listed : b.symbols = (List.finRange bucketCount).flatMap fun k =>
    (b.entries.toList.filter (bucket ·.name = k)).reverse
  listed_once : b.symbols.Perm b.entries.toList

theorem Sound.maps (hb : b.Sound) : b.Maps b.names where
  keys := rfl
  distinct := nodup_names hb
  found _ _ := find?_eq_some_iff_names hb
  on_chain _ _ hs := hb.count_chain hs
  in_range _ _ := hb.lt_size
  older _ _ := links_older hb
  visits k _ := visits_iff hb k
  listed := symbols_eq hb
  listed_once := symbols_perm hb

end Bindings

/-- The bucket of a name is the sum of its bytes, modulo the number of buckets. -/
theorem bucket_eq_sum (name : String) :
    (bucket name).val = (name.toUTF8.toList.map UInt8.toNat).sum % bucketCount := by
  have hsum : ∀ bytes : List UInt8, byteSum bytes = (bytes.map UInt8.toNat).sum := by
    intro bytes
    induction bytes with
    | nil => rfl
    | cons byte rest ih => rw [byteSum, ih, List.map_cons, List.sum_cons]
  rw [← hsum]
  rfl

namespace Table

/-! ## Operations -/

/-- What can be done with a table. -/
inductive Operation where
  | insert (name : String) (scope : Scope) (span : Span)
  | clear (scope : Scope)
  | lookup (name : String) (scope : Scope)
  /-- A header is entered, if one is staged. -/
  | record (header? : Option Header) (target : Scope) (isExtern : Bool) (role : Role)
  /-- The function at hand is over. -/
  | cleanup
  /-- A symbol is rewritten but not renamed. -/
  | rewrite (h : Handle) (change : Symbol → Symbol) (keeps : ∀ s, (change s).name = s.name)

namespace Operation

/-- The names that an operation declares in a scope. -/
def declares (scope : Scope) : Operation → List String
  | .insert name target _ => if target = scope then [name] else []
  | .record (some header) target _ _ => header.declares target scope
  | _ => []

/-- Whether an operation drops the symbols of a scope. -/
def clears (scope : Scope) : Operation → Bool
  | .clear target => target == scope
  | .cleanup => scope == .local
  | _ => false

/-- The names that some operations declare in a scope after the last one that clears it. -/
def declared (scope : Scope) (ops : List Operation) : List String :=
  ops.foldl (fun names op => if op.clears scope then [] else names ++ op.declares scope) []

/-- The scope that an operation works on. A header works on both. -/
def scope? : Operation → Option Scope
  | .insert _ scope _ | .clear scope | .lookup _ scope => some scope
  | .cleanup => some .local
  | .rewrite h _ _ => some h.scope
  | .record .. => none

end Operation

/-- The table behind an operation. -/
def perform (t : Table) : Operation → Table
  | .insert name scope span => (t.insert name scope span).value.2
  | .clear scope => t.clear scope
  | .lookup _ _ | .record none _ _ _ => t
  | .record (some header) target isExtern role => (t.record header target isExtern role).value.2
  | .cleanup => t.clear .local
  | .rewrite h change _ => t.modify h change

/-- The table behind some operations. -/
def performAll (t : Table) (ops : List Operation) : Table := ops.foldl perform t

variable {t : Table} {scope : Scope} {xs : List String}

theorem Chained.perform (ht : t.Chained) (op : Operation) : (t.perform op).Chained := by
  cases op with
  | insert name scope span => exact ht.insert name scope span
  | clear scope => exact ht.clear scope
  | lookup name scope => exact ht
  | record header? target isExtern role =>
      cases header? with
      | none => exact ht
      | some header => exact (growths_record t header target isExtern role).edits.chained ht
  | cleanup => exact ht.clear .local
  | rewrite h change keeps => exact ht.modify h keeps

/-- An operation that does not clear a scope adds what it declares there. -/
theorem Lists.perform (ht : t.Chained) (h : t.Lists scope xs) (op : Operation) :
    (t.perform op).Lists scope
      (if op.clears scope then [] else xs ++ op.declares scope) := by
  have hclear : ∀ target : Scope, (t.clear target).Lists scope
      (if target == scope then [] else xs ++ []) := by
    intro target
    split
    · rename_i heq
      rw [beq_iff_eq] at heq
      subst heq
      exact Lists.clear t target
    · rename_i hne
      rw [List.append_nil]
      exact h.clear_other (by simpa using hne)
  have hkept : t.Lists scope (xs ++ []) := by
    rw [List.append_nil]
    exact h
  cases op with
  | insert name target span => exact h.insert ht name target span
  | clear target => exact hclear target
  | lookup name target => exact hkept
  | record header? target isExtern role =>
      cases header? with
      | none => exact hkept
      | some header => exact h.record ht header target isExtern role
  | cleanup =>
      have hlocal := hclear .local
      rw [show (Scope.local == scope) = (scope == Scope.local) from by cases scope <;> rfl]
        at hlocal
      exact hlocal
  | rewrite handle change keeps => exact hkept.modify handle keeps

/-- **After any operations, a scope lists the names that were declared since it was cleared.** -/
theorem lists_performAll (ops : List Operation) : (Table.empty.performAll ops).Chained ∧
    ∀ scope, (Table.empty.performAll ops).Lists scope (Operation.declared scope ops) := by
  induction ops using List.reverseRecOn with
  | nil => exact ⟨Chained.empty, Lists.empty⟩
  | append_singleton ops op ih =>
      obtain ⟨hchained, hlists⟩ := ih
      simp only [performAll, Operation.declared, List.foldl_concat]
      exact ⟨hchained.perform op, fun scope => (hlists scope).perform hchained op⟩

/-- An operation on one scope leaves the other one alone. -/
theorem bindings_perform {op : Operation} {target : Scope} (ht : op.scope? = some target)
    (hne : target ≠ scope) : (t.perform op).bindings scope = t.bindings scope := by
  cases op with
  | insert name target' span =>
      cases ht
      exact bindings_insert_of_ne hne
  | clear target' =>
      cases ht
      exact (bindings_update ..).trans (if_neg hne)
  | lookup name target' => rfl
  | record header? target' isExtern role => cases ht
  | cleanup =>
      cases ht
      exact (bindings_update ..).trans (if_neg hne)
  | rewrite h change keeps =>
      cases ht
      exact bindings_modify_of_ne hne

/-! ## Looking up and inserting -/

theorem lookup_eq_handle_iff (ht : t.Chained) (h : t.Lists scope xs) {name : String} {i : Nat} :
    t.lookup name scope = some (t.handle scope i) ↔ xs.eraseDups[i]? = some name := by
  rw [← h, ← Bindings.find?_eq_some_iff_names (ht scope)]
  unfold lookup
  rw [Option.map_eq_some_iff]
  constructor
  · rintro ⟨j, hj, heq⟩
    rw [hj, show j = i from congrArg Handle.index heq]
  · intro hi
    exact ⟨i, hi, rfl⟩

theorem lookup_isSome_iff (ht : t.Chained) (h : t.Lists scope xs) {name : String} :
    (t.lookup name scope).isSome ↔ name ∈ xs := by
  rw [← h.mem_iff]
  unfold lookup
  rw [Option.isSome_map]
  cases hf : (t.bindings scope).find? name with
  | none => simpa using (Bindings.find?_eq_none_iff_names (ht scope)).1 hf
  | some i =>
      have hi := (Bindings.find?_eq_some_iff_names (ht scope)).1 hf
      simpa using List.mem_of_getElem? hi

/-- What looking up and inserting do in a scope with some names: both go by the names only. Clearing
the scope and rewriting a symbol do with heads and links what they do with the symbols. -/
structure Answers (t : Table) (scope : Scope) (names : List String) : Prop where
  finds : ∀ name : String, (t.lookup name scope).isSome ↔ name ∈ names
  /-- The symbol that is found stands in the place of its name. -/
  entry : ∀ (name : String) (i : Nat), names[i]? = some name →
    t.lookup name scope = some (t.handle scope i) ∧
      ∃ s, t.get? (t.handle scope i) = some s ∧ s.name = name
  /-- A name that is there is reported once, and nothing changes. -/
  present : ∀ (name : String) (span : Span), name ∈ names → ∃ h s,
    t.lookup name scope = some h ∧ t.get? h = some s ∧
      (t.insert name scope span).value = (h, t) ∧
      (t.insert name scope span).reports = [⟨.redeclared name s.span, span⟩]
  /-- A name that is new takes one symbol, one head and one link, and is not reported. -/
  fresh : ∀ (name : String) (span : Span), name ∉ names →
    let inserted := (t.insert name scope span).value.2
    (t.insert name scope span).reports = [] ∧
      (t.insert name scope span).value.1 = inserted.handle scope names.length ∧
      (inserted.bindings scope).entries =
        (t.bindings scope).entries.push (.fresh name scope span) ∧
      (inserted.bindings scope).links = (t.bindings scope).links.push (bucket name)
  /-- Clearing leaves no symbol, no head and no link. -/
  cleared : ((t.clear scope).bindings scope).entries = #[] ∧
    ((t.clear scope).bindings scope).links = .empty
  /-- A symbol that is rewritten but not renamed stays where it is, with every head and link. -/
  rewritten : ∀ (h : Handle) (change : Symbol → Symbol), (∀ s, (change s).name = s.name) →
    ((t.modify h change).bindings scope).names = (t.bindings scope).names ∧
      ((t.modify h change).bindings scope).links = (t.bindings scope).links

theorem answers (ht : t.Chained) (h : t.Lists scope xs) : t.Answers scope xs.eraseDups where
  finds name := by rw [lookup_isSome_iff ht h, List.mem_eraseDups]
  entry name i hi := by
    refine ⟨(lookup_eq_handle_iff ht h).2 hi, ?_⟩
    rw [get?_handle]
    rw [← h] at hi
    exact Bindings.getElem?_names_eq_some_iff.1 hi
  present name span hmem := by
    rw [List.mem_eraseDups, ← lookup_isSome_iff ht h, Option.isSome_iff_exists] at hmem
    obtain ⟨handle, hl⟩ := hmem
    obtain ⟨i, hi, rfl⟩ := Option.map_eq_some_iff.1 hl
    obtain ⟨s, hs, -⟩ := (Bindings.find?_eq_some_iff (ht scope)).1 hi
    refine ⟨_, s, hl, by rw [get?_handle, hs], (insert_of_some hi).1, ?_⟩
    unfold insert
    simp [hi, hs, Checked.report]
  fresh name span hmem := by
    rw [List.mem_eraseDups, ← h.mem_iff] at hmem
    have hnone := (Bindings.find?_eq_none_iff_names (ht scope)).2 hmem
    have hlen : (t.bindings scope).entries.size = xs.eraseDups.length := by
      rw [← h, Bindings.names, List.length_map, Array.length_toList]
    have hinsert := @insert_of_none t name scope span hnone
    obtain ⟨hvalue, hreports⟩ := hinsert
    dsimp only
    rw [hvalue, bindings_update, if_pos rfl, hlen]
    refine ⟨hreports, ?_, Bindings.entries_push _, Bindings.links_push _ _⟩
    simp [handle, Bindings.push]
  cleared := by
    rw [clear, bindings_update, if_pos rfl]
    exact ⟨rfl, Bindings.links_clear _⟩
  rewritten handle change keeps := by
    rcases bindings_modify_cases t handle change scope with hb | hb <;> rw [hb]
    · exact ⟨rfl, rfl⟩
    · exact ⟨Bindings.names_modify _ keeps, Bindings.links_modify _ keeps⟩

/-- **The symbol table is two finite maps in the order of insertion.** Whatever is done with it, a
scope maps the names that were declared in it since it was last cleared. Its chains hold every
symbol once, its links lead to smaller indices, and a listing meets every symbol once; looking up
and inserting go by the names; clearing leaves no link, and rewriting keeps all of them; and an
operation on the other scope does not touch it. -/
theorem refines_ordered_maps (ops : List Operation) (scope : Scope) :
    let t := Table.empty.performAll ops
    let names := (Operation.declared scope ops).eraseDups
    (∀ name : String,
      (bucket name).val = (name.toUTF8.toList.map UInt8.toNat).sum % bucketCount) ∧
    (t.bindings scope).Maps names ∧
    t.Answers scope names ∧
    (∀ (op : Operation) (target : Scope), op.scope? = some target → target ≠ scope →
      (t.perform op).bindings scope = t.bindings scope) ∧
    t.listing scope = String.join (((List.finRange bucketCount).flatMap fun k =>
      ((t.bindings scope).entries.toList.filter (bucket ·.name = k)).reverse).map
        (·.text ++ "\n")) := by
  obtain ⟨hchained, hlists⟩ := lists_performAll ops
  have hmaps := (hchained scope).maps
  rw [hlists scope] at hmaps
  refine ⟨bucket_eq_sum, hmaps, answers hchained (hlists scope), ?_, ?_⟩
  · intro op target ht hne
    exact bindings_perform ht hne
  · rw [← hmaps.listed]
    rfl

end Table

end Cmm
