import Cmm.Grammar.Program
import Cmm.Proofs.Parse

/-!
# The items before an interruption

A program is known by the items that are complete where reading stops, be it at the end or at an
interruption.

* `Parse.complete` — these items; `complete_bind_of_reads`, `complete_bind_of_interrupted` and
  `complete_holding` follow them through a parser.
* `Grammar.complete_program` — a program goes on with the items of a declaration.
* `Reading.items_ofTokens` — the items of a list of tokens.
-/

set_option autoImplicit false

namespace Cmm

namespace Parse

variable {α : Type} {p : Parse α} {f : α → Parse (List Item)} {c c' : Cursor}

/-- The items that are complete where a parser stops, at its end or at an interruption. -/
def complete (p : Parse (List Item)) (c : Cursor) : List Item :=
  match p c with
  | .ok r => r.1
  | .error i => i.complete

theorem complete_of_reads {q : Parse (List Item)} {items : List Item} (hr : Reads q c items c') :
    complete q c = items := by
  rw [complete, hr]

theorem complete_bind_of_reads {a : α} (hr : Reads p c a c') :
    complete (p >>= f) c = complete (f a) c' := by
  unfold complete
  rw [bind_apply, hr]
  rfl

theorem complete_bind_of_interrupted {i : Interruption} (h : p c = .error i) :
    complete (p >>= f) c = i.complete := by
  unfold complete
  rw [bind_apply, h]
  rfl

/-- What is held back stands in front of what is complete behind it. -/
theorem complete_holding (items : List Item) (p : Parse (List Item)) :
    complete (do return items ++ (← holding items p)) c = items ++ complete p c := by
  cases hr : p c with
  | ok r =>
      have hread : Reads (holding items p) c r.1 r.2 := reads_holding.2 hr
      rw [complete_bind_of_reads hread]
      unfold complete
      rw [hr]
      rfl
  | error i =>
      have herror : holding items p c = .error { i with complete := items ++ i.complete } := by
        unfold holding
        rw [hr]
      rw [complete_bind_of_interrupted herror]
      unfold complete
      rw [hr]

end Parse

open Parse in
/-- In front of a token, a program begins with a declaration. -/
theorem Grammar.complete_program {bound fuel : Nat} {c : Cursor}
    (hne : c.next.kind ≠ .endOfFile) :
    complete (program bound (fuel + 1)) c = complete (do
      let items ← declaration bound
      return items ++ (← holding items (program bound fuel))) c := by
  rw [program, complete_bind_of_reads (reads_kind.2 ⟨rfl, rfl⟩), if_neg hne]

theorem Reading.items_ofTokens (tokens : List Token) : (ofTokens tokens).items =
    Parse.complete (Grammar.program tokens.length tokens.length) (.start tokens) := by
  unfold ofTokens Parse.complete StateT.run
  split <;> rename_i h <;> rw [h]

end Cmm
