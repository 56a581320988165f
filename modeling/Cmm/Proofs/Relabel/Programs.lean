import Mathlib.Data.List.Forall2
import Cmm.Proofs.Env
import Cmm.Proofs.Relabel.Reading
import Cmm.Proofs.Relabel.Trees

/-!
# Programs under other names and places

* `Env.Mirrors` — two environments stand at the same point of a declaration, in tables that mirror
  each other. `Env.Mirrors.step` carries it over an item, `Env.Mirrors.run` over a list of items.
* `Definition.Mirrors` — two finished functions have the same handle and the same tree up to places.
* `Analysis.mirrors_ofTokens` — a program of changed tokens comes to the changed table, the changed
  reports and the changed functions.
-/

set_option autoImplicit false

namespace Cmm

open Checked

variable {r : Relabel}

namespace Relabel

def frame (r : Relabel) (f : Frame) : Frame :=
  { f with header? := f.header?.map r.header }

end Relabel

/-- A finished function and the changed one. -/
structure Definition.Mirrors (r : Relabel) (d d' : Definition) : Prop where
  callee : d'.callee = d.callee
  body : d'.body = r.node d.body
  table : d.table.Mirrors r d'.table

namespace Env

/-- The same point of a declaration, and of the changed one. -/
structure Mirrors (r : Relabel) (env env' : Env) : Prop where
  table : env.table.Mirrors r env'.table
  frame : env'.frame = r.frame env.frame

namespace Mirrors

variable {env env' : Env}

theorem empty (r : Relabel) : Mirrors r .empty .empty := ⟨.empty r, rfl⟩

/-- All that a frame carries but the header is the same. -/
theorem field {α : Type} (m : Mirrors r env env') (f : Frame → α)
    (keeps : ∀ frame, f (r.frame frame) = f frame) : f env'.frame = f env.frame := by
  rw [m.frame, keeps]

theorem stage (m : Mirrors r env env') (name : String) (span : Span) (params : List Param) :
    Mirrors r (env.stage name span params)
      (env'.stage (r.name name) (r.place span) (params.map r.param)) := by
  have hbegun : Mirrors r (env.beginHeader name span)
      (env'.beginHeader (r.name name) (r.place span)) := by
    refine ⟨m.table, ?_⟩
    simp only [beginHeader, m.frame]
    rfl
  unfold Env.stage
  generalize env.beginHeader name span = begun at hbegun ⊢
  generalize env'.beginHeader (r.name name) (r.place span) = begun' at hbegun ⊢
  induction params generalizing begun begun' with
  | nil => exact hbegun
  | cons p rest ih =>
      refine ih _ _ ⟨hbegun.table, ?_⟩
      simp only [addParam, hbegun.frame, Relabel.frame, Option.map_map]
      cases begun.frame.header? with
      | none => rfl
      | some h => simp [Relabel.header]

theorem record (m : Mirrors r env env') (role : Role) :
    Agrees r (fun x y => y.1 = x.1 ∧ Mirrors r x.2 y.2) (env.record role) (env'.record role) := by
  have hheader : env'.frame.header? = env.frame.header?.map r.header := by
    rw [m.frame]
    rfl
  have hscope := m.field (·.scope) fun _ => rfl
  have hexternal := m.field (·.isExtern) fun _ => rfl
  unfold Env.record
  rw [hheader, hscope, hexternal]
  cases env.frame.header? with
  | none => exact .pure ⟨rfl, m⟩
  | some header =>
      refine (m.table.record header _ _ role).bind fun x y hxy => .pure ?_
      obtain ⟨hcallee, htable⟩ := hxy
      refine ⟨congrArg some hcallee, htable, ?_⟩
      rw [m.frame]
      rfl

theorem close (m : Mirrors r env env') : Mirrors r env.close env'.close := by
  refine ⟨m.table.clear .local, ?_⟩
  simp only [Env.close, m.frame]
  rfl

theorem prototype (m : Mirrors r env env') :
    Agrees r (Mirrors r) env.prototype env'.prototype :=
  (m.record .prototype).bind fun _ _ hxy => .pure ⟨hxy.2.table.clear .local, hxy.2.frame⟩

theorem beginBody (m : Mirrors r env env') :
    Agrees r (Mirrors r) env.beginBody env'.beginBody := by
  refine (m.record .definition).bind fun x y hxy => .pure ⟨hxy.2.table, ?_⟩
  simp only [hxy.1, hxy.2.frame]
  rfl

/-- A type that is given alike leaves the tables alike. -/
theorem declareWith (m : Mirrors r env env') (name : String) (span : Span)
    {give : Scalar → Symbol → Symbol}
    (hgive : ∀ held s, give held (r.symbol s) = r.symbol (give held s))
    (keeps : ∀ held s, (give held s).name = s.name) :
    Agrees r (Mirrors r) (env.declareWith name span give)
      (env'.declareWith (r.name name) (r.place span) give) := by
  have hspec := m.field (·.spec) fun _ => rfl
  have hscope := m.field (·.scope) fun _ => rfl
  have hscalar : Follows r id (env.scalar name span)
      (env'.scalar (r.name name) (r.place span)) := by
    unfold Env.scalar
    rw [hspec]
    exact .reportIf rfl rfl rfl (.pure rfl)
  refine hscalar.bind fun held? => ?_
  cases held? with
  | none => exact .pure m
  | some held =>
      rw [hscope]
      refine (m.table.insert name env.frame.scope span).bind fun x y hxy => .pure ?_
      obtain ⟨hhandle, htable⟩ := hxy
      rw [hhandle]
      exact ⟨htable.modify x.1 (hgive held) (keeps held) (keeps held), m.frame⟩

theorem declareVariable (m : Mirrors r env env') (name : String) (span : Span) :
    Agrees r (Mirrors r) (env.declareVariable name span)
      (env'.declareVariable (r.name name) (r.place span)) :=
  m.declareWith name span (fun _ _ => rfl) fun _ _ => rfl

theorem declareArray (m : Mirrors r env env') (name : String) (count : Nat) (span : Span) :
    Agrees r (Mirrors r) (env.declareArray name count span)
      (env'.declareArray (r.name name) count (r.place span)) :=
  m.declareWith name span (fun _ _ => rfl) fun _ _ => rfl

theorem declareSized (m : Mirrors r env env') (name size : String) (sizeSpan span : Span) :
    Agrees r (Mirrors r) (env.declareSized name size sizeSpan span)
      (env'.declareSized (r.name name) size (r.place sizeSpan) (r.place span)) := by
  unfold Env.declareSized
  cases Numeral.size? size with
  | none => exact .report rfl rfl (m.declareArray name 0 span)
  | some count => exact m.declareArray name count span

theorem finish (m : Mirrors r env env') (body : Option Node) (span : Span) :
    Option.Rel (Definition.Mirrors r) (env.finish body span).1
      (env'.finish (body.map r.node) (r.place span)).1 := by
  have hcallee := m.field (·.callee?) fun _ => rfl
  unfold Env.finish
  rw [hcallee]
  cases env.frame.callee? with
  | none => exact .none
  | some callee => exact .some ⟨rfl, (r.node_appendReturn body span).symm, m.table⟩

/-- **An item does to the changed environment what it does to the environment.** -/
theorem step (m : Mirrors r env env') (item : Item) :
    Agrees r (fun x y => Option.Rel (Definition.Mirrors r) x.1 y.1 ∧ Mirrors r x.2 y.2)
      (env.step item) (env'.step (r.item item)) := by
  have hresult := m.field (·.result) fun _ => rfl
  cases item with
  | external =>
      refine .pure ⟨.none, m.table, ?_⟩
      simp only [markExtern, m.frame]
      rfl
  | spec spec =>
      refine .pure ⟨.none, m.table, ?_⟩
      simp only [setSpec, m.frame]
      rfl
  | scalar name span =>
      exact (m.declareVariable name span).bind fun _ _ hnext => .pure ⟨.none, hnext⟩
  | array name size sizeSpan span =>
      exact (m.declareSized name size sizeSpan span).bind fun _ _ hnext => .pure ⟨.none, hnext⟩
  | header name span params => exact .pure ⟨.none, m.stage name span params⟩
  | prototype => exact m.prototype.bind fun _ _ hnext => .pure ⟨.none, hnext⟩
  | endPrototypes => exact .pure ⟨.none, m.close⟩
  | beginBody => exact m.beginBody.bind fun _ _ hnext => .pure ⟨.none, hnext⟩
  | body body closing =>
      simp only [Relabel.item, Env.step, hresult]
      exact (Stmt.follows_checkBody m.table _ body).bind fun tree =>
        .pure ⟨m.finish tree closing, m.close⟩
  | loose phrase =>
      simp only [Relabel.item, Env.step, hresult]
      exact (phrase.follows_check m.table _).bind fun _ => .pure ⟨.none, m⟩

/-- **And so does a whole run.** -/
theorem run (m : Mirrors r env env') (items : List Item) :
    Agrees r (fun x y => List.Forall₂ (Definition.Mirrors r) x.1 y.1 ∧ Mirrors r x.2 y.2)
      (env.run items) (env'.run (items.map r.item)) := by
  induction items generalizing env env' with
  | nil => exact .pure ⟨.nil, m⟩
  | cons item rest ih =>
      refine (m.step item).bind fun x y hxy => (ih hxy.2).bind fun x' y' hxy' => .pure ?_
      refine ⟨?_, hxy'.2⟩
      generalize x.1 = d?, y.1 = d?' at hxy
      cases hxy.1 with
      | none => exact hxy'.1
      | some hd => exact .cons hd hxy'.1

end Mirrors

end Env

namespace Analysis

/-- What is known of a program, and of the changed one. -/
structure Mirrors (r : Relabel) (a a' : Analysis) : Prop where
  table : Option.Rel (Table.Mirrors r) a.table? a'.table?
  reports : a'.reports = a.reports.map r.anyReport
  definitions : List.Forall₂ (Definition.Mirrors r) a.definitions a'.definitions

/-- **A program of changed tokens comes to what the program comes to, changed.** -/
theorem mirrors_ofTokens (r : Relabel) (tokens : List Token) :
    Mirrors r (ofTokens tokens) (ofTokens (tokens.map r.token)) := by
  obtain ⟨⟨hdefinitions, henv⟩, hreports⟩ :=
    (Env.Mirrors.empty r).run (Reading.ofTokens tokens).items
  have hsemantic : ((Env.empty.run ((Reading.ofTokens tokens).items.map r.item)).reports.map
      (·.map Fault.semantic)) =
      ((Env.empty.run (Reading.ofTokens tokens).items).reports.map (·.map Fault.semantic)).map
        r.anyReport := by
    rw [hreports, List.map_map, List.map_map]
    rfl
  unfold ofTokens
  rw [Reading.ofTokens_map]
  unfold ofReading
  dsimp only
  cases (Reading.ofTokens tokens).fault? with
  | none => exact ⟨.some henv.table, hsemantic, hdefinitions⟩
  | some f =>
      refine ⟨.none, ?_, hdefinitions⟩
      simp only [Option.map_some, hsemantic, List.map_append]
      rfl

end Analysis

end Cmm
