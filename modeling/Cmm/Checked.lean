import Cmm.Fault

/-!
# Checked values

Reports travel with the values here, in place of the `DiagnosticReporter` that `Semantics` holds.

* `Checked α` — a value together with the reports that came up while it was made.
* The monad collects reports in the order of the steps; no step sees the reports of another, so the
  reports of a whole are those of its parts one after the other (`reports_bind`).
-/

set_option autoImplicit false

namespace Cmm

/-- A value with the reports that came up while it was made. -/
structure Checked (α : Type) where
  value : α
  reports : List (Report SemanticFault)

namespace Checked

variable {α β : Type}

instance : Monad Checked where
  pure a := ⟨a, []⟩
  bind x f := ⟨(f x.value).value, x.reports ++ (f x.value).reports⟩

/-- Reports a fault. -/
def report (fault : SemanticFault) (span : Span) : Checked Unit := ⟨(), [⟨fault, span⟩]⟩

/-- Reports a fault where a condition holds. -/
def reportIf (condition : Bool) (fault : SemanticFault) (span : Span) : Checked Unit :=
  if condition then report fault span else pure ()

@[simp] theorem value_pure (a : α) : (pure a : Checked α).value = a := rfl

@[simp] theorem reports_pure (a : α) : (pure a : Checked α).reports = [] := rfl

@[simp] theorem value_bind (x : Checked α) (f : α → Checked β) :
    (x >>= f).value = (f x.value).value := rfl

@[simp] theorem reports_bind (x : Checked α) (f : α → Checked β) :
    (x >>= f).reports = x.reports ++ (f x.value).reports := rfl

@[simp] theorem value_map (x : Checked α) (f : α → β) : (f <$> x).value = f x.value := rfl

@[simp] theorem reports_map (x : Checked α) (f : α → β) : (f <$> x).reports = x.reports := by
  show x.reports ++ [] = x.reports
  exact List.append_nil _

end Checked

end Cmm
