import Cmm.Compile
import Cmm.Proofs.Relabel.Programs
import Cmm.Proofs.Table.Maps

/-!
# The layout of a program

Blanks, line breaks and comments move the tokens of a program, and do nothing else to it.

* `Node.unplaced`, `Table.unplaced`, `Definition.unplaced`, `Analysis.unplaced` — every span is
  forgotten; types, handles, chains and generations stay.
* `Analysis.ofTokens_unplaced` — what a program comes to without spans is what its tokens without
  spans come to.
* `Analysis.SameButPlaces` — two analyses that an observer who sees no span cannot tell apart: they
  have the same table, the same diagnostics in words, the same functions, counts and listings.
* `analysis_of_same_words` — two texts that scan to the same words come to the same but for places.
-/

set_option autoImplicit false

namespace Cmm

/-! ## Without places -/

/-- A token without its place. -/
def Token.word (t : Token) : Kind × String := (t.kind, t.lexeme)

def Symbol.unplaced (s : Symbol) : Symbol := { s with span := ⟨0, 0⟩ }

def Node.unplaced (n : Node) : Node := Relabel.unplaced.node n

def Bindings.unplaced (b : Bindings) : Bindings :=
  { b with entries := b.entries.map Symbol.unplaced }

def Table.unplaced (t : Table) : Table := ⟨t.globals.unplaced, t.locals.unplaced⟩

def Definition.unplaced (d : Definition) : Definition :=
  ⟨d.callee, d.body.unplaced, d.table.unplaced⟩

def Analysis.unplaced (a : Analysis) : Analysis :=
  ⟨a.table?.map Table.unplaced, a.reports.map Relabel.unplaced.anyReport,
    a.definitions.map Definition.unplaced⟩

theorem Relabel.symbol_unplaced (s : Symbol) : Relabel.unplaced.symbol s = s.unplaced := by
  have hformal : Relabel.unplaced.formal = id := rfl
  have hsignature : Relabel.unplaced.signature = id := by
    funext sig
    simp only [Relabel.signature, hformal, List.map_id, id]
  simp only [Relabel.symbol, hsignature, Option.map_id, id]
  rfl

namespace Bindings

variable {b b' : Bindings}

@[simp] theorem getElem?_unplaced (i : Nat) :
    b.unplaced.entries[i]? = b.entries[i]?.map Symbol.unplaced := Array.getElem?_map

/-- The chains of sound bindings follow from their symbols. -/
theorem eq_unplaced (hb : b.Sound) (hb' : b'.Sound)
    (entries : b'.entries = b.entries.map Symbol.unplaced)
    (generation : b'.generation = b.generation) : b' = b.unplaced := by
  have hchain (k : Fin bucketCount) : b'.chain k = b.chain k := by
    have hbucket (i : Nat) : b'.entries[i]?.any (bucket ·.name = k) =
        b.entries[i]?.any (bucket ·.name = k) := by
      rw [entries, Array.getElem?_map]
      cases b.entries[i]? <;> rfl
    have hsize : b'.entries.size = b.entries.size := by rw [entries, Array.size_map]
    simp only [chain_eq hb', chain_eq hb, hbucket, hsize]
  have hchains : b'.chains = b.chains := by
    apply Vector.toList_inj.1
    rw [chains_toList, chains_toList]
    exact List.map_congr_left fun k _ => hchain k
  obtain ⟨entries', chains', generation'⟩ := b'
  subst entries generation hchains
  rfl

theorem symbols_unplaced (b : Bindings) : b.unplaced.symbols = b.symbols.map Symbol.unplaced := by
  simp [symbols, unplaced, List.map_flatMap, List.map_filterMap]

end Bindings

namespace Table

variable {t t' : Table}

theorem bindings_unplaced (scope : Scope) :
    t.unplaced.bindings scope = (t.bindings scope).unplaced := by
  cases scope <;> rfl

/-- A table that mirrors another without places is that table without places. -/
theorem Mirrors.eq_unplaced (m : t.Mirrors Relabel.unplaced t') : t' = t.unplaced := by
  have hscope (scope : Scope) : t'.bindings scope = (t.bindings scope).unplaced := by
    have hentries := m.entries scope
    rw [funext Relabel.symbol_unplaced] at hentries
    exact Bindings.eq_unplaced (m.chained scope) (m.chained' scope) hentries (m.generation scope)
  obtain ⟨globals, locals⟩ := t'
  exact congrArg₂ Table.mk (hscope .global) (hscope .local)

theorem eq_unplaced_of_rel {t? t?' : Option Table}
    (h : Option.Rel (Mirrors Relabel.unplaced) t? t?') : t?' = t?.map unplaced := by
  cases h with
  | none => rfl
  | some m => exact congrArg some m.eq_unplaced

/-- A listing shows no place. -/
theorem listing_unplaced (scope : Scope) : t.unplaced.listing scope = t.listing scope := by
  unfold listing Table.symbols
  rw [bindings_unplaced, Bindings.symbols_unplaced, List.map_map]
  rfl

theorem get?_unplaced (h : Handle) : t.unplaced.get? h = (t.get? h).map Symbol.unplaced := by
  unfold get? resolve
  simp only [bindings_unplaced, Bindings.getElem?_unplaced]
  by_cases hg : (t.bindings h.scope).generation = h.generation
  · cases (t.bindings h.scope).entries[h.index]? <;>
      simp [Bindings.unplaced, hg, Except.toOption]
  · simp [Bindings.unplaced, hg, Except.toOption]

end Table

/-! ## Counts -/

theorem Node.children_unplaced (n : Node) : n.unplaced.children = n.children.map Node.unplaced := by
  obtain ⟨form, ty, span⟩ := n
  have hpart (part : Option Node) :
      (part.map Relabel.unplaced.node).toList = part.toList.map Node.unplaced := by
    cases part <;> rfl
  cases form <;> simp [unplaced, Relabel.node, children, Relabel.form, Form.children, hpart]

/-- A visit that looks at no place goes the same way. -/
theorem Node.foldFrom_unplaced {β : Type} {visit : β → Node → β}
    (h : ∀ b n, visit b n.unplaced = visit b n) (b : β) (pending : List Node) :
    foldFrom visit b (pending.map Node.unplaced) = foldFrom visit b pending := by
  fun_induction foldFrom visit b pending with
  | case1 b => rw [List.map_nil, foldFrom]
  | case2 b n pending ih =>
      rw [List.map_cons, foldFrom, h, children_unplaced, ← List.map_append, ih]

theorem Counts.ofNode_unplaced (n : Node) : ofNode n.unplaced = ofNode n :=
  Node.foldFrom_unplaced (fun c m => by rw [Node.unplaced, Relabel.tag_node]) zero [n]

theorem Census.enter_unplaced (census : Census) (d : Definition) :
    census.enter d.unplaced.table d.unplaced.callee d.unplaced.body =
      census.enter d.table d.callee d.body := by
  have hname : (d.table.unplaced.get? d.callee).map (·.name) =
      (d.table.get? d.callee).map (·.name) := by
    rw [Table.get?_unplaced, Option.map_map]
    rfl
  simp only [Census.enter, Definition.unplaced, hname, Counts.ofNode_unplaced]

theorem Census.ofDefinitions_unplaced (definitions : List Definition) :
    ofDefinitions (definitions.map Definition.unplaced) = ofDefinitions definitions := by
  unfold ofDefinitions
  simp only [List.foldl_map, enter_unplaced]

/-! ## Diagnostics -/

/-- What a diagnostic says without naming a place: its code, its message and its help. -/
def Diagnostic.words (d : Diagnostic) : String × String × Option String :=
  (d.code, d.message, d.hint?)

theorem Report.words_unplaced (x : Report Fault) (src src' : Source) :
    ((Relabel.unplaced.anyReport x).diagnostic src').words = (x.diagnostic src).words := by
  obtain ⟨fault, span⟩ := x
  cases fault with
  | lexical f => rfl
  | syntactic f => rfl
  | semantic f => cases f <;> rfl

/-! ## Programs -/

namespace Analysis

theorem ofTokens_unplaced (tokens : List Token) :
    ofTokens (tokens.map Relabel.unplaced.token) = (ofTokens tokens).unplaced := by
  obtain ⟨htable, hreports, hdefinitions⟩ := mirrors_ofTokens Relabel.unplaced tokens
  have htable' := Table.eq_unplaced_of_rel htable
  have hdefinitions' : (ofTokens (tokens.map Relabel.unplaced.token)).definitions =
      (ofTokens tokens).definitions.map Definition.unplaced := by
    symm
    rw [← List.forall₂_eq_eq_eq, List.forall₂_map_left_iff]
    refine hdefinitions.imp fun d d' hd => ?_
    obtain ⟨callee', body', table'⟩ := d'
    obtain ⟨rfl, rfl, htable⟩ := hd
    obtain rfl := htable.eq_unplaced
    rfl
  generalize ofTokens (tokens.map Relabel.unplaced.token) = a at *
  obtain ⟨table?, reports, definitions⟩ := a
  subst htable' hreports hdefinitions'
  rfl

/-- Two analyses that cannot be told apart without looking at a place. -/
structure SameButPlaces (x y : Analysis) : Prop where
  outcome : x.table?.map Table.unplaced = y.table?.map Table.unplaced
  /-- The diagnostics have the same words, wherever the texts come from. -/
  diagnostics : ∀ src src' : Source, x.reports.map (fun p => (p.diagnostic src).words) =
    y.reports.map (fun p => (p.diagnostic src').words)
  definitions : x.definitions.map Definition.unplaced = y.definitions.map Definition.unplaced
  census : Census.ofDefinitions x.definitions = Census.ofDefinitions y.definitions
  globals : x.table?.map (·.listing .global) = y.table?.map (·.listing .global)

theorem sameButPlaces_of_unplaced_eq {x y : Analysis} (h : x.unplaced = y.unplaced) :
    SameButPlaces x y := by
  have houtcome : x.table?.map Table.unplaced = y.table?.map Table.unplaced :=
    congrArg table? h
  have hreports : x.reports.map Relabel.unplaced.anyReport =
      y.reports.map Relabel.unplaced.anyReport := congrArg reports h
  have hdefinitions : x.definitions.map Definition.unplaced =
      y.definitions.map Definition.unplaced := congrArg definitions h
  refine ⟨houtcome, fun src src' => ?_, hdefinitions, ?_, ?_⟩
  · have hwords := congrArg (List.map fun p : Report Fault => (p.diagnostic src).words) hreports
    rw [List.map_map, List.map_map] at hwords
    calc x.reports.map (fun p => (p.diagnostic src).words)
        = x.reports.map (fun p => ((Relabel.unplaced.anyReport p).diagnostic src).words) :=
          List.map_congr_left fun p _ => (p.words_unplaced src src).symm
      _ = y.reports.map (fun p => ((Relabel.unplaced.anyReport p).diagnostic src).words) := hwords
      _ = y.reports.map (fun p => (p.diagnostic src').words) :=
          List.map_congr_left fun p _ => p.words_unplaced src' src
  · rw [← Census.ofDefinitions_unplaced, hdefinitions, Census.ofDefinitions_unplaced]
  · have hlisting := congrArg (Option.map fun t : Table => t.listing .global) houtcome
    simpa only [Option.map_map, Function.comp_def, Table.listing_unplaced] using hlisting

/-- The same words in the same order come to the same but for places. -/
theorem sameButPlaces_ofTokens {tokens tokens' : List Token}
    (same : tokens.map Token.word = tokens'.map Token.word) :
    SameButPlaces (ofTokens tokens) (ofTokens tokens') := by
  have htoken : Relabel.unplaced.token = (fun w => ⟨w.1, w.2, ⟨0, 0⟩⟩) ∘ Token.word := by
    funext t
    obtain ⟨kind, text, span⟩ := t
    cases kind <;> rfl
  have htokens : tokens.map Relabel.unplaced.token = tokens'.map Relabel.unplaced.token := by
    rw [htoken, ← List.map_map, same, List.map_map]
  apply sameButPlaces_of_unplaced_eq
  rw [← ofTokens_unplaced, htokens, ofTokens_unplaced]

/-- A summary shows no place. -/
theorem SameButPlaces.result {x y : Analysis} (h : SameButPlaces x y) (options : Options)
    (src src' : Source) :
    (x.result options).mapError (List.map fun p => (p.diagnostic src).words) =
      (y.result options).mapError (List.map fun p => (p.diagnostic src').words) := by
  have hdiagnostics := h.diagnostics src src'
  have hglobals := h.globals
  have hempty : x.reports.isEmpty = y.reports.isEmpty := by
    have := congrArg List.isEmpty hdiagnostics
    simpa using this
  unfold Analysis.result
  cases hx : x.table? with
  | none =>
      rw [hx] at hglobals
      rw [Option.map_eq_none_iff.1 hglobals.symm]
      exact congrArg Except.error hdiagnostics
  | some t =>
      rw [hx] at hglobals
      obtain ⟨t', ht', hlisting⟩ := Option.map_eq_some_iff.1 hglobals.symm
      rw [ht']
      dsimp only
      rw [hempty]
      split
      · simp only [summary, h.census, hlisting]
        rfl
      · exact congrArg Except.error hdiagnostics

end Analysis

theorem result_compile {text : String} (clean : (scan text).reports = []) (options : Options) :
    (compile text options).result = (Analysis.ofTokens (scan text).tokens).result options := by
  simp only [compile, clean, List.isEmpty_nil, if_true]

/-- **Layout is free.** Two texts that scan without a report to the same words, however these are
laid out, come to the same but for places: the same outcome, the same diagnostics in words, the same
functions handed over, with equal trees and handles, the same counts and the same listing of the
program. So does a whole compilation, whatever it is asked to list. -/
theorem analysis_of_same_words {a b : String} (clean_a : (scan a).reports = [])
    (clean_b : (scan b).reports = [])
    (same : (scan a).tokens.map Token.word = (scan b).tokens.map Token.word) :
    Analysis.SameButPlaces (.ofTokens (scan a).tokens) (.ofTokens (scan b).tokens) ∧
      ∀ (options : Options) (src src' : Source),
        (compile a options).result.mapError (List.map fun p => (p.diagnostic src).words) =
          (compile b options).result.mapError (List.map fun p => (p.diagnostic src').words) := by
  have hsame := Analysis.sameButPlaces_ofTokens same
  refine ⟨hsame, fun options src src' => ?_⟩
  rw [result_compile clean_a, result_compile clean_b]
  exact hsame.result options src src'

/-- A redeclaration, a call of an unknown function and a missing brace, in one line and in many. -/
theorem analysis_of_same_words_redeclared :
    let a := "int a;int f(int x)\x7breturn g(a+x);\x7dint a;void h(void)\x7b"
    let b := "int a; // a counter\nint f ( int x )\n\x7b\n  return g(/* not here */ a + x);\n\x7d" ++
      "\n\nint a;\nvoid h(void) \x7b\n"
    Analysis.SameButPlaces (.ofTokens (scan a).tokens) (.ofTokens (scan b).tokens) ∧
      ∀ (options : Options) (src src' : Source),
        (compile a options).result.mapError (List.map fun p => (p.diagnostic src).words) =
          (compile b options).result.mapError (List.map fun p => (p.diagnostic src').words) :=
  analysis_of_same_words (by decide +kernel) (by decide +kernel) (by decide +kernel)

end Cmm
