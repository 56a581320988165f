import Cmm.Diagnostic
import Cmm.Proofs.Relabel.Programs
import Cmm.Proofs.Table.Maps

/-!
# Other names

A program may take other names for all its variables, functions and parameters, as long as different
names stay different.

* `Token.rename`, `Symbol.rename` — the names of identifiers, symbols and parameters, exchanged.
* `Table.SameButNames` — two tables answer alike about a name and its new name, and list the same
  symbols; other names fall into other buckets, so the order of a listing is free.
* `Analysis.SameButNames` — two analyses with the same outcome, the same functions with identical
  trees, and the same diagnostics by code and place.
* `Analysis.sameButNames_ofTokens` — new names for all identifiers change nothing else.
-/

set_option autoImplicit false

namespace Cmm

/-! ## Exchanging names -/

/-- An identifier takes another name; any other token stays. -/
def Token.rename (f : String → String) (t : Token) : Token :=
  if t.kind = .identifier then { t with lexeme := f t.lexeme } else t

def Formal.rename (f : String → String) (p : Formal) : Formal := { p with name := f p.name }

/-- The name of a symbol and those of its parameters, exchanged. -/
def Symbol.rename (f : String → String) (s : Symbol) : Symbol :=
  { s with
    name := f s.name
    signature? := s.signature?.map fun sig =>
      { sig with formals := sig.formals.map (Formal.rename f) } }

variable {f : String → String} (hf : Function.Injective f)

theorem Relabel.token_renamed (t : Token) : (Relabel.renamed f hf).token t = t.rename f := by
  obtain ⟨kind, text, span⟩ := t
  cases kind <;> simp [Relabel.token, Token.rename, Relabel.lexeme, Relabel.renamed]

theorem Relabel.symbol_renamed (s : Symbol) : (Relabel.renamed f hf).symbol s = s.rename f := rfl

/-! A tree has no names, so it stays as it is. -/

mutual

theorem Relabel.node_renamed : ∀ n : Node, (Relabel.renamed f hf).node n = n
  | ⟨form, ty, span⟩ => by
    rw [Relabel.node, Relabel.form_renamed form]
    rfl

theorem Relabel.form_renamed : ∀ form : Form Node, (Relabel.renamed f hf).form form = form
  | .error | .int _ | .char _ | .string _ | .var _ => rfl
  | .element h index => by rw [Relabel.form, Relabel.node_renamed index]
  | .call h args => by rw [Relabel.form, Relabel.node?_renamed args]
  | .unary op operand => by rw [Relabel.form, Relabel.node_renamed operand]
  | .binary op left right => by
    rw [Relabel.form, Relabel.node_renamed left, Relabel.node_renamed right]
  | .assign target value => by
    rw [Relabel.form, Relabel.node_renamed target, Relabel.node_renamed value]
  | .ret value => by rw [Relabel.form, Relabel.node?_renamed value]
  | .forLoop start test update body => by
    rw [Relabel.form, Relabel.node?_renamed start, Relabel.node?_renamed test,
      Relabel.node?_renamed update, Relabel.node?_renamed body]
  | .whileLoop test body => by
    rw [Relabel.form, Relabel.node_renamed test, Relabel.node?_renamed body]
  | .branch test thenPart elsePart => by
    rw [Relabel.form, Relabel.node_renamed test, Relabel.node?_renamed thenPart,
      Relabel.node?_renamed elsePart]
  | .cell head tail => by rw [Relabel.form, Relabel.node_renamed head, Relabel.node?_renamed tail]

theorem Relabel.node?_renamed : ∀ n? : Option Node, (Relabel.renamed f hf).node? n? = n?
  | none => rfl
  | some n => by rw [Relabel.node?, Relabel.node_renamed n]

end

/-! ## Tables -/

/-- Two tables that differ in nothing but their names and the order of their listings. -/
structure Table.SameButNames (f : String → String) (t t' : Table) : Prop where
  lookup : ∀ name scope, t'.lookup (f name) scope = t.lookup name scope
  get? : ∀ h, t'.get? h = (t.get? h).map (Symbol.rename f)
  symbols : ∀ scope, (t'.symbols scope).Perm ((t.symbols scope).map (Symbol.rename f))

theorem Table.Mirrors.sameButNames {t t' : Table} (m : t.Mirrors (Relabel.renamed f hf) t') :
    t.SameButNames f t' := by
  have hsymbol : (Relabel.renamed f hf).symbol = Symbol.rename f :=
    funext (Relabel.symbol_renamed hf)
  refine ⟨m.lookup, fun h => hsymbol ▸ m.get? h, fun scope => ?_⟩
  -- Both listings go through the same symbols, each in the order of its own buckets.
  have hentries : (t'.bindings scope).entries.toList =
      (t.bindings scope).entries.toList.map (Symbol.rename f) := by
    rw [m.entries, hsymbol, Array.toList_map]
  have hlisted := Bindings.symbols_perm (m.chained' scope)
  have hlisted' := (Bindings.symbols_perm (m.chained scope)).map (Symbol.rename f)
  rw [hentries] at hlisted
  exact hlisted.trans hlisted'.symm

theorem Table.rel_sameButNames {t? t?' : Option Table}
    (h : Option.Rel (Table.Mirrors (Relabel.renamed f hf)) t? t?') :
    Option.Rel (Table.SameButNames f) t? t?' := by
  cases h with
  | none => exact .none
  | some m => exact .some m.sameButNames

/-! ## Programs -/

namespace Analysis

/-- Two analyses that differ in nothing but their names. -/
structure SameButNames (f : String → String) (x y : Analysis) : Prop where
  outcome : Option.Rel (Table.SameButNames f) x.table? y.table?
  /-- The same functions with the very same trees, handles and places included. -/
  calls : y.definitions.map (fun d => (d.callee, d.body)) =
    x.definitions.map fun d => (d.callee, d.body)
  tables : List.Forall₂ (Table.SameButNames f) (x.definitions.map (·.table))
    (y.definitions.map (·.table))
  diagnostics : ∀ src : Source,
    (y.reports.map (·.diagnostic src)).map (fun d => (d.code, d.location?)) =
      (x.reports.map (·.diagnostic src)).map fun d => (d.code, d.location?)

include hf in
/-- **New names for all identifiers change nothing else**, whatever buckets they fall into: neither
whether the program is read to its end, nor which functions are handed over with which trees, nor
where what is reported. -/
theorem sameButNames_ofTokens (tokens : List Token) :
    SameButNames f (ofTokens tokens) (ofTokens (tokens.map (Token.rename f))) := by
  obtain ⟨htable, hreports, hdefinitions⟩ := mirrors_ofTokens (Relabel.renamed f hf) tokens
  rw [funext (Relabel.token_renamed hf)] at htable hreports hdefinitions
  refine ⟨Table.rel_sameButNames hf htable, ?_, ?_, fun src => ?_⟩
  · rw [← List.forall₂_eq_eq_eq, List.forall₂_map_left_iff, List.forall₂_map_right_iff]
    refine hdefinitions.flip.imp fun d' d hd => ?_
    have hbody := hd.body
    rw [Relabel.node_renamed] at hbody
    rw [hd.callee, hbody]
  · rw [List.forall₂_map_left_iff, List.forall₂_map_right_iff]
    exact hdefinitions.imp fun d d' hd => hd.table.sameButNames
  · rw [hreports, List.map_map, List.map_map, List.map_map]
    refine List.map_congr_left fun x _ => ?_
    have hcode := (Relabel.renamed f hf).code_anyFault x.fault
    exact congrArg (·, some (src.locate x.span)) hcode

/-- In `int a, ba; int f(int x) { return a + g(ba); }` the names `a` and `ba` fall into different
buckets; with `ab` for `a` they share one. -/
theorem sameButNames_ofTokens_collision :
    let tokens := Token.spaced 0
      [(.typeWord .int, "int"), (.identifier, "a"), (.punct .comma, ","), (.identifier, "ba"),
        (.punct .semicolon, ";"), (.typeWord .int, "int"), (.identifier, "f"),
        (.punct .leftParen, "("), (.typeWord .int, "int"), (.identifier, "x"),
        (.punct .rightParen, ")"), (.punct .leftBrace, "\x7b"), (.keyword .returnWord, "return"),
        (.identifier, "a"), (.punct .plus, "+"), (.identifier, "g"), (.punct .leftParen, "("),
        (.identifier, "ba"), (.punct .rightParen, ")"), (.punct .semicolon, ";"),
        (.punct .rightBrace, "\x7d")]
    let f := Equiv.swap "a" "ab"
    (bucket "a" ≠ bucket "ba" ∧ bucket (f "a") = bucket (f "ba")) ∧
      SameButNames f (ofTokens tokens) (ofTokens (tokens.map (Token.rename f))) := by
  intro tokens f
  exact ⟨by decide +kernel, sameButNames_ofTokens f.injective tokens⟩

end Analysis

end Cmm
