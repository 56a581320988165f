import Cmm.Checked
import Cmm.Symbol

/-!
# The symbol table

Reference model of `hash`, of `ScopeTable`, and of `SymbolTable` with `init`, `lookup`,
`lookup_any`, `insert`, `resolve`, `get_mut`, `symbols` and `dump`.

A table keeps one set of bindings for the program and one for the function at hand.

* `Bindings` — the symbols of a scope in the order of declaration. The chain of a bucket lists the
  indices of the symbols whose names fall into it, newest first; `bucket` sums the bytes of a name.
* `Table.insert` — a name is declared once per scope: declaring it again is reported and gives the
  symbol that is there.
* `Table.lookup`, `Table.lookupAny` — a name in one scope; a name in the function, else in the
  program.
* `Table.resolve` — a handle is good until its scope is cleared.
* `Table.symbols` — buckets in increasing order, newest first in each.
-/

set_option autoImplicit false

namespace Cmm

/-- The number of chains of a scope. -/
abbrev bucketCount : Nat := 256

/-- The sum of some bytes. -/
def byteSum : List UInt8 → Nat
  | [] => 0
  | b :: rest => b.toNat + byteSum rest

/-- The bucket of a name: the sum of its bytes, modulo the number of chains. -/
def bucket (name : String) : Fin bucketCount :=
  ⟨byteSum name.toUTF8.toList % bucketCount, Nat.mod_lt _ (by decide)⟩

/-- The symbols of one scope. -/
structure Bindings where
  entries : Array Symbol
  chains : Vector (List Nat) bucketCount
  /-- How often the scope has been cleared, modulo `2 ^ 32`. -/
  generation : UInt32
  deriving DecidableEq

namespace Bindings

/-- No symbols, cleared once. -/
def empty : Bindings := ⟨#[], Vector.replicate bucketCount [], 1⟩

/-- Drops every symbol. -/
def clear (b : Bindings) : Bindings :=
  ⟨#[], Vector.replicate bucketCount [], b.generation + 1⟩

/-- Whether the symbol at an index has a name. -/
def isNamed (b : Bindings) (name : String) (index : Nat) : Bool :=
  b.entries[index]?.any (·.name == name)

/-- The index of a name. -/
def find? (b : Bindings) (name : String) : Option Nat :=
  b.chains[bucket name].find? (b.isNamed name)

/-- Adds a symbol in front of its chain. -/
def push (b : Bindings) (s : Symbol) : Bindings :=
  { b with
    entries := b.entries.push s
    chains := b.chains.set (bucket s.name) (b.entries.size :: b.chains[bucket s.name]) }

/-- Changes the symbol at an index. -/
def modify (b : Bindings) (index : Nat) (f : Symbol → Symbol) : Bindings :=
  { b with entries := b.entries.modify index f }

/-- The symbols, buckets in increasing order, newest first in each. -/
def symbols (b : Bindings) : List Symbol :=
  b.chains.toList.flatMap fun chain => chain.filterMap (b.entries[·]?)

end Bindings

/-- The bindings of the program and of the function at hand. -/
structure Table where
  globals : Bindings
  locals : Bindings
  deriving DecidableEq

namespace Table

/-- A table without symbols. -/
def empty : Table := ⟨.empty, .empty⟩

/-- The bindings of a scope. -/
def bindings (t : Table) : Scope → Bindings
  | .global => t.globals
  | .local => t.locals

/-- Changes the bindings of a scope. -/
def update (t : Table) (scope : Scope) (f : Bindings → Bindings) : Table :=
  match scope with
  | .global => { t with globals := f t.globals }
  | .local => { t with locals := f t.locals }

/-- Drops every symbol of a scope; the handles to them go stale. -/
def clear (t : Table) (scope : Scope) : Table := t.update scope .clear

/-- The handle to an index of a scope. -/
def handle (t : Table) (scope : Scope) (index : Nat) : Handle :=
  ⟨scope, index, (t.bindings scope).generation⟩

/-- A name in one scope. -/
def lookup (t : Table) (name : String) (scope : Scope) : Option Handle :=
  ((t.bindings scope).find? name).map (t.handle scope)

/-- A name in the function at hand, else in the program. -/
def lookupAny (t : Table) (name : String) : Option Handle :=
  (t.lookup name .local).or (t.lookup name .global)

/-- The symbol of a handle, or why there is none. -/
def resolve (t : Table) (h : Handle) : Except HandleFault Symbol :=
  let b := t.bindings h.scope
  if b.generation ≠ h.generation then .error (.stale h.scope h.generation b.generation) else
  match b.entries[h.index]? with
  | some s => .ok s
  | none => .error (.missing h.scope h.index)

/-- The symbol of a handle. -/
def get? (t : Table) (h : Handle) : Option Symbol := (t.resolve h).toOption

/-- Changes the symbol of a handle; a handle without a symbol changes nothing. -/
def modify (t : Table) (h : Handle) (f : Symbol → Symbol) : Table :=
  t.update h.scope fun b => if b.generation = h.generation then b.modify h.index f else b

/-- Declares a name in a scope. A name that is there already is reported and kept. -/
def insert (t : Table) (name : String) (scope : Scope) (span : Span) : Checked (Handle × Table) :=
  match (t.bindings scope).find? name with
  | some index => do
    let previous := ((t.bindings scope).entries[index]?.map (·.span)).getD span
    .report (.redeclared name previous) span
    return (t.handle scope index, t)
  | none =>
    return (t.handle scope (t.bindings scope).entries.size,
      t.update scope (·.push (.fresh name scope span)))

/-- The symbols of a scope. -/
def symbols (t : Table) (scope : Scope) : List Symbol := (t.bindings scope).symbols

/-- The listing of a scope, one line per symbol. -/
def listing (t : Table) (scope : Scope) : String :=
  String.join ((t.symbols scope).map fun s => s.text ++ "\n")

end Table

end Cmm
