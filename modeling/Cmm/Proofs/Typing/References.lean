import Cmm.Proofs.Env
import Cmm.Proofs.Tree
import Cmm.Proofs.Typing.Checks

/-!
# The symbols that a tree refers to

* `Node.Refers` — a node that refers to a symbol refers to one of the right kind and has the type
  that the symbol gives.
* `Expr.refers_check`, `Stmt.refers_check` — every check keeps it, also where it reports.
* `Node.RefersUntil` — moreover, what becomes of its handle behind the body.
* `Analysis.references` — this holds throughout every tree that is handed over.
-/

set_option autoImplicit false

namespace Cmm

/-- A node that refers to a symbol agrees with it. -/
def Node.Refers (t : Table) (n : Node) : Prop :=
  match n.form with
  | .var h => ∃ s, t.get? h = some s ∧ n.ty = s.ty
  | .element h _ => ∃ s scalar, t.get? h = some s ∧ s.ty = .array scalar ∧ n.ty = scalar.ty
  | .call h args => ∃ s sig, t.get? h = some s ∧ s.ty = .function ∧ s.signature? = some sig ∧
      n.ty = sig.result.ty ∧ Typing.Suit sig.formals (Typing.actuals args)
  | _ => True

variable {t : Table}

namespace Node

theorem refers_cell (head : Node) (tail : Option Node) (span : Span) :
    Refers t ⟨.cell head tail, .void, span⟩ := trivial

/-- The handle of a node that refers to a symbol is good. -/
theorem Refers.get? {n : Node} {h : Handle} (refers : n.Refers t) (hh : n.handle? = some h) :
    ∃ s, t.get? h = some s := by
  obtain ⟨form, ty, span⟩ := n
  cases form <;> cases hh
  · obtain ⟨s, hs, -⟩ := refers
    exact ⟨s, hs⟩
  · obtain ⟨s, _, hs, -⟩ := refers
    exact ⟨s, hs⟩
  · obtain ⟨s, _, hs, -⟩ := refers
    exact ⟨s, hs⟩

end Node

/-- A refused construct leaves a tree without parts that refer to a symbol. -/
theorem Typing.Refused.refers {x : Checked Node} {span : Span} (hr : Typing.Refused x span) :
    x.value.Throughout (·.Refers t) := by
  rw [hr.value]
  exact Node.throughout_error (fun _ => trivial) span

namespace Typing

/-! ## The checks of constructs -/

theorem refers_var (ht : t.Sound) (name : String) (span : Span) :
    (var t name span).value.Throughout (·.Refers t) := by
  rcases var_spec ht name span with ⟨h, s, found, heq⟩ | ⟨-, hr⟩
  · rw [heq]
    exact Node.throughout_of_leaf ⟨s, found.get, rfl⟩ rfl
  · exact hr.refers

theorem refers_element (ht : t.Sound) (name : String) {index : Node} (span : Span)
    (hindex : index.Throughout (·.Refers t)) :
    (element t name index span).value.Throughout (·.Refers t) := by
  rcases element_spec ht name index span with ⟨h, s, scalar, found, harr, -, heq⟩ | ⟨-, hr⟩
  · rw [heq]
    exact Node.throughout_of_child ⟨s, scalar, found.get, harr, rfl⟩ rfl hindex
  · exact hr.refers

theorem refers_callOf {h : Handle} {s : Symbol} {sig : Signature} {args : Option Node} (span : Span)
    (hs : t.get? h = some s) (hf : s.ty = .function) (hsig : s.signature? = some sig)
    (hsuit : Suit sig.formals (actuals args)) (hargs : ∀ n ∈ args, n.Throughout (·.Refers t)) :
    Node.Throughout (·.Refers t) ⟨.call h args, sig.result.ty, span⟩ :=
  Node.throughout_of_part ⟨s, sig, hs, hf, hsig, rfl, hsuit⟩ rfl hargs

theorem refers_call (ht : t.Sound) (name : String) {args : Option Node} (span : Span)
    (hargs : ∀ n ∈ args, n.Throughout (·.Refers t)) :
    (call t name args span).value.Throughout (·.Refers t) := by
  rcases call_spec ht name args span with ⟨h, s, sig, found, hf, hsig, hsuit, heq⟩ | ⟨-, hr⟩
  · rw [heq]
    exact refers_callOf span found.get hf hsig hsuit hargs
  · exact hr.refers

theorem refers_callStatement (ht : t.Sound) (name : String) {args : Option Node} (span : Span)
    (hargs : ∀ n ∈ args, n.Throughout (·.Refers t)) :
    (callStatement t name args span).value.Throughout (·.Refers t) := by
  rcases callStatement_spec ht name args span with
    ⟨h, s, sig, found, hf, hsig, -, hsuit, heq⟩ | hr
  · rw [heq]
    exact refers_callOf span found.get hf hsig hsuit hargs
  · exact hr.refers

theorem refers_unary (op : UnOp) {operand : Node} (span : Span)
    (hoperand : operand.Throughout (·.Refers t)) :
    (unary op operand span).value.Throughout (·.Refers t) := by
  rcases unary_spec op operand span with ⟨ty, -, heq⟩ | ⟨-, heq⟩ | ⟨-, hr⟩
  · rw [heq]
    exact Node.throughout_of_child trivial rfl hoperand
  · rw [heq]
    exact Node.throughout_error (fun _ => trivial) span
  · exact hr.refers

theorem refers_binary (op : BinOp) {left right : Node} (hleft : left.Throughout (·.Refers t))
    (hright : right.Throughout (·.Refers t)) :
    (binary op left right).value.Throughout (·.Refers t) := by
  rcases binary_spec op left right with ⟨ty, -, heq⟩ | ⟨-, heq⟩ | ⟨-, hr⟩
  · rw [heq]
    exact Node.throughout_of_children trivial rfl hleft hright
  · rw [heq]
    exact Node.throughout_error (fun _ => trivial) _
  · exact hr.refers

theorem refers_assign {target value : Node} (span : Span)
    (htarget : target.Throughout (·.Refers t)) (hvalue : value.Throughout (·.Refers t)) :
    (assign target value span).value.Throughout (·.Refers t) := by
  rcases assign_spec target value span with ⟨-, -, heq⟩ | ⟨-, heq⟩ | ⟨-, heq⟩ | hr
  · rw [heq]
    exact Node.throughout_of_children trivial rfl htarget hvalue
  · rw [heq]
    exact htarget
  · rw [heq]
    exact hvalue
  · exact hr.refers

theorem refers_ret (result : TypeSpec) {value : Option Node} (span : Span)
    (hvalue : ∀ n ∈ value, n.Throughout (·.Refers t)) :
    (ret result value span).value.Throughout (·.Refers t) := by
  rcases ret_spec result value span with ⟨-, -, heq⟩ | ⟨v, -, rfl, -, heq⟩ | hr
  · rw [heq]
    exact Node.throughout_of_leaf trivial rfl
  · rw [heq]
    exact Node.throughout_of_child trivial rfl (hvalue v rfl)
  · exact hr.refers

end Typing

/-! ## The checks of phrases -/

mutual

/-- The tree of an expression refers to symbols that agree with it. -/
theorem Expr.refers_check (ht : t.Sound) :
    ∀ (e : Expr), (e.check t).value.Throughout (·.Refers t)
  | .int lexeme span => by
    rw [Expr.check]
    cases Numeral.constant? lexeme with
    | some value => exact Node.throughout_of_leaf trivial rfl
    | none => exact (Typing.refused_fail _ _ _).refers
  | .char value span => Node.throughout_of_leaf trivial rfl
  | .string text span => Node.throughout_of_leaf trivial rfl
  | .var name span => Typing.refers_var ht name span
  | .element array index span => Typing.refers_element ht array span (index.refers_check ht)
  | .call callee args span => by
    refine Typing.refers_call ht callee span ?_
    exact Node.throughout_argumentList Node.refers_cell (Expr.refers_checkAll ht args)
  | .unary op operand mark => Typing.refers_unary op _ (operand.refers_check ht)
  | .binary op left right =>
    Typing.refers_binary op (left.refers_check ht) (right.refers_check ht)
  | .paren inner span => by
    have hinner := Node.throughout_iff.1 (inner.refers_check ht)
    exact Node.throughout_iff.2 hinner

theorem Expr.refers_checkAll (ht : t.Sound) :
    ∀ (es : List Expr), ∀ n ∈ (Expr.checkAll t es).value, n.Throughout (·.Refers t)
  | [] => by simp [Expr.checkAll]
  | e :: rest => by
    have hhead := e.refers_check ht
    have hrest := Expr.refers_checkAll ht rest
    intro n hn
    rcases List.mem_cons.1 hn with heq | hn
    · rw [heq]
      exact hhead
    · exact hrest n hn

end

theorem Target.refers_check (ht : t.Sound) (place : Target) :
    (place.check t).value.Throughout (·.Refers t) := by
  cases place with
  | var name span => exact Typing.refers_var ht name span
  | element array index span =>
      exact Typing.refers_element ht array span (index.refers_check ht)

theorem Assign.refers_check (ht : t.Sound) (a : Assign) :
    (a.check t).value.Throughout (·.Refers t) :=
  Typing.refers_assign a.span (a.target.refers_check ht) (a.value.refers_check ht)

theorem Checked.refers_option {α : Type} {check : α → Checked Node} (x? : Option α)
    (hcheck : ∀ x, (check x).value.Throughout (·.Refers t)) :
    ∀ n ∈ (Checked.option check x?).value, n.Throughout (·.Refers t) := by
  cases x? with
  | none => simp [Checked.option]
  | some x =>
      rintro n ⟨⟩
      exact hcheck x

variable (result : TypeSpec)

mutual

/-- The tree of a statement refers to symbols that agree with it. -/
theorem Stmt.refers_check (ht : t.Sound) :
    ∀ (s : Stmt), ∀ n ∈ (s.check t result).value, n.Throughout (·.Refers t)
  | .empty => by simp [Stmt.check]
  | .block body => by
    rw [Stmt.check]
    exact Stmt.refers_checkBody ht body
  | .assign a => by
    rintro n ⟨⟩
    exact a.refers_check ht
  | .call callee args span => by
    rintro n ⟨⟩
    refine Typing.refers_callStatement ht callee span ?_
    exact Node.throughout_argumentList Node.refers_cell (Expr.refers_checkAll ht args)
  | .branch test thenPart elsePart span => by
    have htest := test.refers_check ht
    have hthen := thenPart.refers_check ht
    have helse := Stmt.refers_checkElse ht elsePart
    rintro n ⟨⟩
    refine Node.throughout_iff.2 ⟨trivial, fun c hc => ?_⟩
    rcases List.mem_cons.1 hc with heq | hc
    · rw [heq]
      exact htest
    · rcases List.mem_append.1 hc with hc | hc
      · exact hthen c (Option.mem_toList.1 hc)
      · exact helse c (Option.mem_toList.1 hc)
  | .whileLoop test body span => by
    have htest := test.refers_check ht
    have hbody := body.refers_check ht
    rintro n ⟨⟩
    refine Node.throughout_iff.2 ⟨trivial, fun c hc => ?_⟩
    rcases List.mem_cons.1 hc with heq | hc
    · rw [heq]
      exact htest
    · exact hbody c (Option.mem_toList.1 hc)
  | .forLoop start test update body span => by
    have hstart := Checked.refers_option start fun a => Assign.refers_check ht a
    have htest := Checked.refers_option test fun e => Expr.refers_check ht e
    have hupdate := Checked.refers_option update fun a => Assign.refers_check ht a
    have hbody := body.refers_check ht
    rintro n ⟨⟩
    rw [(Typing.forLoop_spec _ _ _ _ span).1]
    refine Node.throughout_iff.2 ⟨trivial, fun c hc => ?_⟩
    rcases List.mem_append.1 hc with hc | hc
    · rcases List.mem_append.1 hc with hc | hc
      · rcases List.mem_append.1 hc with hc | hc
        · exact hstart c (Option.mem_toList.1 hc)
        · exact htest c (Option.mem_toList.1 hc)
      · exact hupdate c (Option.mem_toList.1 hc)
    · exact hbody c (Option.mem_toList.1 hc)
  | .ret value span => by
    rintro n ⟨⟩
    exact Typing.refers_ret result span (Checked.refers_option value fun e => e.refers_check ht)

theorem Stmt.refers_checkElse (ht : t.Sound) :
    ∀ (s? : Option Stmt), ∀ n ∈ (Stmt.checkElse t result s?).value, n.Throughout (·.Refers t)
  | none => by simp [Stmt.checkElse]
  | some s => by
    rw [Stmt.checkElse]
    exact s.refers_check ht

theorem Stmt.refers_checkBody (ht : t.Sound) :
    ∀ (body : List Stmt), ∀ n ∈ (Stmt.checkBody t result body).value, n.Throughout (·.Refers t)
  | [] => by simp [Stmt.checkBody]
  | s :: rest => by
    have hhead := s.refers_check ht
    have htail := Stmt.refers_checkBody ht rest
    rw [Stmt.checkBody, Checked.value_bind, Checked.value_bind, Checked.value_pure]
    unfold Typing.statementList
    split
    · rename_i head hs
      rintro n ⟨⟩
      exact Node.throughout_cons Node.refers_cell (hhead head hs) htail
    · exact htail

end

/-! ## Trees that are handed over -/

/-- Dropping the locals makes every handle to one of them stale. -/
theorem Env.stale_close {env : Env} {h : Handle} {s : Symbol} (hs : env.table.get? h = some s)
    (hl : h.scope = .local) : env.close.table.resolve h =
      .error (.stale .local h.generation (h.generation + 1)) := by
  have hg := (Table.get?_eq_some_iff.1 hs).1
  have hnext : (env.close.table.bindings .local).generation = h.generation + 1 := by
    rw [← hg, hl]
    rfl
  unfold Table.resolve
  rw [hl]
  simp only [hnext]
  rw [if_pos (by simp)]

/-- A node agrees with the symbol it refers to in a table. In the environment that comes behind, a
handle to a local is stale, and a handle to a name of the program keeps its name whatever items
follow. -/
def Node.RefersUntil (t : Table) (next : Env) (n : Node) : Prop :=
  n.Refers t ∧ ∀ h, n.handle? = some h → ∃ s, t.get? h = some s ∧
    (h.scope = .local →
      next.table.resolve h = .error (.stale .local h.generation (h.generation + 1))) ∧
    (h.scope = .global → ∀ later : List Item,
      ∃ s', (next.after later).table.get? h = some s' ∧ s'.name = s.name)

/-- **The references of a tree that is handed over are good**, whatever was reported and whether or
not the reading was interrupted later. -/
theorem Analysis.references (tokens : List Token) {before rest : List Item} {d : Definition}
    {next : Env}
    (handed : Env.empty.HandsOver (Reading.ofTokens tokens).items before d next rest) :
    d ∈ (Analysis.ofTokens tokens).definitions ∧
      d.body.Throughout (·.RefersUntil d.table next) := by
  refine ⟨?_, ?_⟩
  · have : d ∈ (Env.empty.run (Reading.ofTokens tokens).items).value.1 :=
      Env.mem_definitions_iff.2 ⟨before, next, rest, handed⟩
    rw [Analysis.definitions_ofTokens]
    exact this
  · obtain ⟨body, closing, -, -, htable, hbody, hnext⟩ := handed.body
    have ht : d.table.Sound := htable ▸ Env.sound_after before
    have hrefers : d.body.Throughout (·.Refers d.table) := by
      rw [hbody]
      exact Node.throughout_appendReturn Node.refers_cell (fun _ => trivial)
        (Stmt.refers_checkBody _ ht body) closing
    refine hrefers.imp fun n hn => ⟨hn, fun h hh => ?_⟩
    obtain ⟨s, hs⟩ := hn.get? hh
    refine ⟨s, hs, fun hl => ?_, fun hg later => ?_⟩
    · rw [hnext]
      exact Env.stale_close (htable ▸ hs) hl
    · have hclose : d.table.Edits next.table := by
        rw [htable, hnext]
        exact .single .clear
      exact Table.Edits.get?_global (hclose.trans (Env.after_edits next later)) hg hs

theorem Analysis.references_sample : ∃ before rest d next,
    Env.empty.HandsOver (Reading.ofTokens Token.sample).items before d next rest ∧
      d ∈ (Analysis.ofTokens Token.sample).definitions ∧
      d.body.Throughout (·.RefersUntil d.table next) := by
  have hpos : 0 < (Env.empty.run (Reading.ofTokens Token.sample).items).value.1.length := by
    decide +kernel
  obtain ⟨d, hd⟩ := List.exists_mem_of_length_pos hpos
  obtain ⟨before, next, rest, handed⟩ := Env.mem_definitions_iff.1 hd
  exact ⟨before, rest, d, next, handed, Analysis.references Token.sample handed⟩

end Cmm
