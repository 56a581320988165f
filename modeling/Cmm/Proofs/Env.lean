import Cmm.Analysis
import Cmm.Proofs.Table

/-!
# Runs of declaration steps

* `Env.after` — the environment that a list of items leads to; `after_append` cuts a run at any
  item.
* `Env.HandsOver` — a run hands a finished function over; `HandsOver.body` says from which tree and
  in which environment.
* `Table.record_callee` — the handle that a header gives refers to the name of the header.
* `Env.step_edits`, `Env.after_edits` — a step, and so a run, does nothing to the table but insert,
  rewrite and clear the locals.
* `Env.sound_after` — every table that a run leads to is sound, in whatever order its items come.
-/

set_option autoImplicit false

namespace Cmm

namespace Env

variable {env : Env} {item : Item} {items : List Item}

/-- The environment behind some items. -/
def after (env : Env) (items : List Item) : Env := (env.run items).value.2

@[simp] theorem after_nil (env : Env) : env.after [] = env := rfl

@[simp] theorem after_cons (env : Env) (item : Item) (rest : List Item) :
    env.after (item :: rest) = (env.step item).value.2.after rest := rfl

theorem after_append (env : Env) (items rest : List Item) :
    env.after (items ++ rest) = (env.after items).after rest := by
  induction items generalizing env with
  | nil => rfl
  | cons item items ih => simp only [List.cons_append, after_cons, ih]

theorem definitions_cons (env : Env) (item : Item) (rest : List Item) :
    (env.run (item :: rest)).value.1 =
      (env.step item).value.1.toList ++ ((env.step item).value.2.run rest).value.1 := rfl

theorem definitions_append (env : Env) (items rest : List Item) :
    (env.run (items ++ rest)).value.1 =
      (env.run items).value.1 ++ ((env.after items).run rest).value.1 := by
  induction items generalizing env with
  | nil => rfl
  | cons item items ih =>
      rw [List.cons_append, definitions_cons, ih, definitions_cons, after_cons, List.append_assoc]

theorem reports_run_cons (env : Env) (item : Item) (rest : List Item) :
    (env.run (item :: rest)).reports =
      (env.step item).reports ++ ((env.step item).value.2.run rest).reports := by
  simp [run]

/-- Behind the items `before`, a run hands a finished function over, and goes on from `next` with
the items `rest`. -/
def HandsOver (env : Env) (items before : List Item) (d : Definition) (next : Env)
    (rest : List Item) : Prop :=
  ∃ item, items = before ++ item :: rest ∧ ((env.after before).step item).value = (some d, next)

/-- The finished functions of a run are those that it hands over. -/
theorem mem_definitions_iff {d : Definition} : d ∈ (env.run items).value.1 ↔
    ∃ before next rest, env.HandsOver items before d next rest := by
  induction items generalizing env with
  | nil => simp [run, HandsOver]
  | cons item items ih =>
      rw [definitions_cons, List.mem_append, ih]
      constructor
      · rintro (hd | ⟨before, next, rest, item', rfl, hd⟩)
        · exact ⟨[], _, items, item, rfl, Prod.ext (by simpa using hd) rfl⟩
        · exact ⟨item :: before, next, rest, item', rfl, hd⟩
      · rintro ⟨before, next, rest, item', heq, hd⟩
        cases before with
        | nil =>
            cases heq
            rw [after_nil] at hd
            exact .inl (by rw [hd]; exact List.mem_singleton_self d)
        | cons head before =>
            cases heq
            exact .inr ⟨before, next, rest, item', rfl, hd⟩

/-- Only a body is handed over: its checked tree with a return behind it, the table it was checked
in, and the function that the frame names. The locals are dropped behind it. -/
theorem HandsOver.body {before rest : List Item} {d : Definition} {next : Env}
    (handed : env.HandsOver items before d next rest) :
    ∃ body closing, items = before ++ .body body closing :: rest ∧
      (env.after before).frame.callee? = some d.callee ∧ d.table = (env.after before).table ∧
      d.body = Node.appendReturn
        (Stmt.checkBody d.table (env.after before).frame.result body).value closing ∧
      next = (env.after before).close := by
  obtain ⟨item, hitems, hstep⟩ := handed
  cases item with
  | body body closing =>
      have hstep : (env.after before).finish (Stmt.checkBody (env.after before).table
          (env.after before).frame.result body).value closing = (some d, next) := hstep
      unfold finish at hstep
      obtain ⟨hd, hnext⟩ := Prod.mk.inj hstep
      obtain ⟨callee, hcallee, rfl⟩ := Option.map_eq_some_iff.1 hd
      exact ⟨body, closing, hitems, hcallee, rfl, rfl, hnext.symm⟩
  | external | spec | scalar | array | header | prototype | endPrototypes | beginBody | loose =>
      cases congrArg Prod.fst hstep

theorem reports_run_append (env : Env) (items rest : List Item) :
    (env.run (items ++ rest)).reports =
      (env.run items).reports ++ ((env.after items).run rest).reports := by
  induction items generalizing env with
  | nil => rfl
  | cons item items ih =>
      rw [List.cons_append, reports_run_cons, ih, reports_run_cons, after_cons, List.append_assoc]

end Env

namespace Analysis

variable (tokens : List Token)

theorem definitions_ofTokens : (ofTokens tokens).definitions =
    (Env.empty.run (Reading.ofTokens tokens).items).value.1 := by
  unfold ofTokens ofReading
  split <;> rfl

/-- What the items of a program are reported for, and then the interruption. -/
theorem reports_ofTokens : (ofTokens tokens).reports =
    (Env.empty.run (Reading.ofTokens tokens).items).reports.map (·.map Fault.semantic) ++
      ((Reading.ofTokens tokens).fault?.map fun f => ⟨.syntactic f, f.found.span⟩).toList := by
  unfold ofTokens ofReading
  cases (Reading.ofTokens tokens).fault? with
  | none => exact (List.append_nil _).symm
  | some f => rfl

/-- A program without any report is read to its end, and no item of it is reported. -/
theorem reports_ofTokens_eq_nil_iff : (ofTokens tokens).reports = [] ↔
    (Reading.ofTokens tokens).fault? = none ∧
      (Env.empty.run (Reading.ofTokens tokens).items).reports = [] := by
  rw [reports_ofTokens]
  cases (Reading.ofTokens tokens).fault? with
  | none => simp
  | some f => simp

end Analysis

/-- Tokens with a blank between one and the next. -/
def Token.spaced (offset : Nat) : List (Kind × String) → List Token
  | [] => []
  | (kind, lexeme) :: rest =>
    ⟨kind, lexeme, ⟨offset, lexeme.utf8ByteSize⟩⟩ ::
      spaced (offset + lexeme.utf8ByteSize + 1) rest

/-- `int a[3]; int f(int x) { return f(a[x]); }`: a call, a subscript and a variable. -/
def Token.sample : List Token :=
  Token.spaced 0
    [(.typeWord .int, "int"), (.identifier, "a"), (.punct .leftBracket, "["), (.intLiteral, "3"),
      (.punct .rightBracket, "]"), (.punct .semicolon, ";"), (.typeWord .int, "int"),
      (.identifier, "f"), (.punct .leftParen, "("), (.typeWord .int, "int"), (.identifier, "x"),
      (.punct .rightParen, ")"), (.punct .leftBrace, "\x7b"), (.keyword .returnWord, "return"),
      (.identifier, "f"), (.punct .leftParen, "("), (.identifier, "a"), (.punct .leftBracket, "["),
      (.identifier, "x"), (.punct .rightBracket, "]"), (.punct .rightParen, ")"),
      (.punct .semicolon, ";"), (.punct .rightBrace, "\x7d")]

/-! ## Entering a header -/

namespace Table

variable {t : Table} {p : Param} {h : Header} {role : Role} {scope : Scope}

/-- The function of a header has the symbol of its name; a header of a new name declares it. -/
theorem claim_cases (t : Table) (h : Header) (role : Role) :
    (∃ writes, (t.claim h role).value = ((t.insert h.name .global h.span).value.1,
      (t.insert h.name .global h.span).value.2, writes)) ∨
    ∃ callee writes, t.lookup h.name .global = some callee ∧
      (t.claim h role).value = (callee, t, writes) := by
  unfold claim
  split
  · exact .inl ⟨true, rfl⟩
  · rename_i callee hl
    split
    · split
      · exact .inr ⟨callee, true, hl, rfl⟩
      · exact .inr ⟨callee, false, hl, rfl⟩
    · exact .inr ⟨callee, false, hl, rfl⟩

/-- Entering a header: its function is found or declared, then its parameters are, and then the
function takes the signature, if it may. -/
theorem record_eq (t : Table) (h : Header) (scope : Scope) (isExtern : Bool) (role : Role) :
    let claimed := t.claim h role
    let formals := claimed.value.2.1.addFormals scope h.params
    (t.record h scope isExtern role).value.1 = claimed.value.1 ∧
      (t.record h scope isExtern role).value.2 =
        (if claimed.value.2.2 then
          formals.value.2.modify claimed.value.1 fun s =>
            { s with
              ty := .function
              signature? := some ⟨h.result, formals.value.1, role.standing, isExtern⟩ }
        else formals.value.2) ∧
      (t.record h scope isExtern role).reports = claimed.reports ++ formals.reports := by
  unfold record
  simp only [Checked.value_bind, Checked.reports_bind]
  generalize t.claim h role = claimed
  obtain ⟨⟨callee, t₁, writes⟩, reports⟩ := claimed
  cases writes <;> exact ⟨rfl, rfl, by simp⟩

theorem growths_claim (t : Table) (h : Header) (role : Role) :
    t.Growths (t.claim h role).value.2.1 := by
  obtain ⟨writes, hvalue⟩ | ⟨callee, writes, -, hvalue⟩ := t.claim_cases h role
  · rw [hvalue]
    exact .single (.insert h.name .global h.span)
  · rw [hvalue]

/-- A parameter is never a function and never stands for an error. -/
theorem Symbol.coherent_formal {s : Symbol} (p : Param) :
    ({ s with isFormal := true, ty := p.ty } : Symbol).Coherent := by
  have : p.ty ≠ .error ∧ p.ty ≠ .function := by
    unfold Param.ty
    split
    · split
      · exact ⟨by simp, by simp⟩
      · rename_i scalar _ _
        cases scalar <;> exact ⟨by simp [Scalar.ty], by simp [Scalar.ty]⟩
    · exact ⟨by simp, by simp⟩
  exact ⟨this.1, fun hf => absurd hf this.2⟩

theorem growths_addFormal (t : Table) (scope : Scope) (p : Param) :
    t.Growths (t.addFormal scope p).value.2 := by
  unfold addFormal
  split
  · exact .refl
  · refine .tail (.single (.insert p.name scope p.span)) ?_
    exact .modify _ _ (fun _ => ⟨rfl, rfl, rfl⟩) fun s _ => Symbol.coherent_formal p

theorem growths_addFormals (t : Table) (scope : Scope) (ps : List Param) :
    t.Growths (t.addFormals scope ps).value.2 := by
  induction ps generalizing t with
  | nil => exact .refl
  | cons p rest ih => exact (growths_addFormal t scope p).trans (ih _)

/-- Entering a header drops nothing of a table. -/
theorem growths_record (t : Table) (h : Header) (scope : Scope) (isExtern : Bool) (role : Role) :
    t.Growths (t.record h scope isExtern role).value.2 := by
  obtain ⟨-, hvalue, -⟩ := record_eq t h scope isExtern role
  have hformals := (growths_claim t h role).trans (growths_addFormals _ scope h.params)
  rw [hvalue]
  split
  · refine hformals.tail (.modify _ _ (fun _ => ⟨rfl, rfl, rfl⟩) fun s hs => ?_)
    exact ⟨by simp, fun _ => ⟨_, rfl⟩⟩
  · exact hformals

/-- A header finds its name in the program or brings it there. -/
theorem claim_callee (t : Table) (h : Header) (role : Role) :
    (t.claim h role).value.1.scope = .global ∧
      ∃ s, (t.claim h role).value.2.1.get? (t.claim h role).value.1 = some s ∧
        s.name = h.name := by
  obtain ⟨writes, hvalue⟩ | ⟨callee, writes, hl, hvalue⟩ := t.claim_cases h role
  · rw [hvalue]
    exact ⟨scope_insert .., get?_insert_self h.name .global h.span⟩
  · rw [hvalue]
    exact get?_of_lookup hl

/-- The handle that a header gives refers to the name of the header, also where the header is
rejected. -/
theorem record_callee (t : Table) (h : Header) (scope : Scope) (isExtern : Bool) (role : Role) :
    (t.record h scope isExtern role).value.1.scope = .global ∧
      ∃ s, (t.record h scope isExtern role).value.2.get?
          (t.record h scope isExtern role).value.1 = some s ∧ s.name = h.name := by
  obtain ⟨hcallee, hvalue, -⟩ := record_eq t h scope isExtern role
  obtain ⟨hglobal, s, hs, hname⟩ := t.claim_callee h role
  -- The parameters leave the function where it is.
  obtain ⟨s₁, hs₁, hname₁⟩ :=
    (growths_addFormals _ scope h.params).edits.get?_global hglobal hs
  rw [hcallee, hvalue]
  refine ⟨hglobal, ?_⟩
  split
  · rw [get?_modify, if_pos rfl, hs₁]
    exact ⟨_, rfl, hname₁.trans hname⟩
  · exact ⟨s₁, hs₁, hname₁.trans hname⟩

end Table

/-! ## Steps and runs -/

namespace Env

variable {env : Env}

/-- A variable of type `void` is reported and not declared. -/
theorem declareWith_of_none (hspec : env.frame.spec.scalar? = none) (name : String) (span : Span)
    (give : Scalar → Symbol → Symbol) :
    (env.declareWith name span give).value = env ∧
      (env.declareWith name span give).reports = [⟨.voidVariable name, span⟩] := by
  unfold declareWith scalar
  rw [hspec]
  exact ⟨rfl, rfl⟩

/-- Any other variable is declared as its name is, and its symbol takes the type. -/
theorem declareWith_of_some {held : Scalar} (hspec : env.frame.spec.scalar? = some held)
    (name : String) (span : Span) (give : Scalar → Symbol → Symbol) :
    let inserted := env.table.insert name env.frame.scope span
    (env.declareWith name span give).value =
        { env with table := inserted.value.2.modify inserted.value.1 (give held) } ∧
      (env.declareWith name span give).reports = inserted.reports := by
  unfold declareWith scalar
  rw [hspec]
  exact ⟨rfl, List.append_nil _⟩

theorem frame_declareWith (env : Env) (name : String) (span : Span)
    (give : Scalar → Symbol → Symbol) :
    (env.declareWith name span give).value.frame = env.frame := by
  cases hspec : env.frame.spec.scalar? with
  | none => rw [(declareWith_of_none hspec name span give).1]
  | some scalar => rw [(declareWith_of_some hspec name span give).1]

/-- A type that a declaration gives is that of a variable. -/
theorem edits_declareWith (env : Env) (name : String) (span : Span)
    {give : Scalar → Symbol → Symbol}
    (keeps : ∀ scalar (s : Symbol), (give scalar s).SameDeclaration s)
    (coherent : ∀ scalar (s : Symbol), (give scalar s).Coherent) :
    env.table.Edits (env.declareWith name span give).value.table := by
  cases hspec : env.frame.spec.scalar? with
  | none =>
      rw [(declareWith_of_none hspec name span give).1]
  | some scalar =>
      rw [(declareWith_of_some hspec name span give).1]
      exact .tail (.single (.insert name env.frame.scope span))
        (.modify _ _ (keeps scalar) fun s _ => coherent scalar s)

theorem edits_declareVariable (env : Env) (name : String) (span : Span) :
    env.table.Edits (env.declareVariable name span).value.table := by
  refine edits_declareWith env name span (fun _ _ => ⟨rfl, rfl, rfl⟩) ?_
  intro scalar s
  cases scalar <;> exact ⟨by simp [Scalar.ty], fun h => by simp [Scalar.ty] at h⟩

theorem edits_declareArray (env : Env) (name : String) (count : Nat) (span : Span) :
    env.table.Edits (env.declareArray name count span).value.table :=
  edits_declareWith env name span (fun _ _ => ⟨rfl, rfl, rfl⟩) fun _ _ =>
    ⟨by simp, fun h => by simp at h⟩

/-- A size that does not fit counts as zero. -/
theorem value_declareSized (env : Env) (name size : String) (sizeSpan span : Span) :
    (env.declareSized name size sizeSpan span).value =
      (env.declareArray name ((Numeral.size? size).getD 0) span).value := by
  unfold declareSized
  cases Numeral.size? size <;> rfl

theorem edits_record (env : Env) (role : Role) :
    env.table.Edits (env.record role).value.2.table := by
  unfold record
  split
  · exact .refl
  · exact (Table.growths_record ..).edits

theorem table_stage (env : Env) (name : String) (span : Span) (params : List Param) :
    (env.stage name span params).table = env.table := by
  unfold stage
  generalize hb : env.beginHeader name span = begun
  have : begun.table = env.table := by rw [← hb]; rfl
  rw [← this]
  clear hb this
  induction params generalizing begun with
  | nil => rfl
  | cons p rest ih => exact ih (begun.addParam p)

/-- **A step changes the table by inserting, rewriting and clearing the locals only.** -/
theorem step_edits (env : Env) (item : Item) : env.table.Edits (env.step item).value.2.table := by
  cases item with
  | external | spec _ | loose _ => exact .refl
  | scalar name span => exact edits_declareVariable env name span
  | array name size sizeSpan span =>
      show env.table.Edits (env.declareSized name size sizeSpan span).value.table
      rw [value_declareSized]
      exact edits_declareArray env name _ span
  | header name span params =>
      rw [show (env.step (.header name span params)).value.2 = env.stage name span params from rfl,
        table_stage]
  | prototype => exact (edits_record env .prototype).tail .clear
  | endPrototypes => exact .single .clear
  | beginBody => exact edits_record env .definition
  | body body closing => exact .single .clear

theorem after_edits (env : Env) (items : List Item) : env.table.Edits (env.after items).table := by
  induction items generalizing env with
  | nil => exact .refl
  | cons item rest ih => exact (step_edits env item).trans (ih _)

/-- **Every table of a run is sound.** -/
theorem sound_after (items : List Item) : (Env.empty.after items).table.Sound :=
  (after_edits .empty items).sound .empty

end Env

end Cmm
