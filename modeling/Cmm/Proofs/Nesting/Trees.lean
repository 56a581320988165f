import Cmm.Proofs.Tree

/-!
# Trees over the text

* `Span.Laid` — spans that are not empty stand one behind the other between two places.
* `Node.Nested` — the span of a node contains those of its children, and these stand one behind the
  other.
* `Node.Laid` — trees that are nested throughout stand one behind the other between two places.
* `Node.laid_argumentList`, `Node.laid_statementList`, `Node.laid_appendReturn` — chains of trees,
  and chains that are taken apart and built anew, stand where their items do.
-/

set_option autoImplicit false

namespace Cmm

/-! ## Spans -/

namespace Span

variable {a b c : Span} {lo lo' mid hi hi' : Nat} {spans others : List Span}

/-- One span neither begins nor ends behind another. -/
structure UpTo (a b : Span) : Prop where
  offset : a.offset ≤ b.offset
  stop : a.stop ≤ b.stop

namespace UpTo

theorem refl (a : Span) : a.UpTo a := ⟨Nat.le_refl _, Nat.le_refl _⟩

theorem trans (h : a.UpTo b) (h' : b.UpTo c) : a.UpTo c :=
  ⟨Nat.le_trans h.offset h'.offset, Nat.le_trans h.stop h'.stop⟩

/-- What covers both begins with the first one. -/
theorem offset_hull (h : a.UpTo b) : (a.hull b).offset = a.offset := Nat.min_eq_left h.offset

/-- What covers both ends with the last one. -/
theorem stop_hull (h : a.UpTo b) : (a.hull b).stop = b.stop := by
  rw [Span.stop_hull, Nat.max_eq_right h.stop]

end UpTo

theorem offset_le_stop (s : Span) : s.offset ≤ s.stop := Nat.le_add_right _ _

/-- A span behind the end of another one. -/
theorem upTo_of_stop_le (h : a.stop ≤ b.offset) : a.UpTo b :=
  ⟨Nat.le_trans a.offset_le_stop h, Nat.le_trans h b.offset_le_stop⟩

/-- Spans that are not empty stand one behind the other, the first behind one place and the last
before another. -/
def Laid (lo hi : Nat) : List Span → Prop
  | [] => lo ≤ hi
  | s :: rest => lo ≤ s.offset ∧ s.offset < s.stop ∧ Laid s.stop hi rest

namespace Laid

theorem le (h : Laid lo hi spans) : lo ≤ hi := by
  induction spans generalizing lo with
  | nil => exact h
  | cons s rest ih =>
      obtain ⟨hfirst, hne, hrest⟩ := h
      have := ih hrest
      omega

theorem mono (h : Laid lo hi spans) (hlo : lo' ≤ lo) (hhi : hi ≤ hi') : Laid lo' hi' spans := by
  induction spans generalizing lo lo' with
  | nil => exact Nat.le_trans hlo (Nat.le_trans h hhi)
  | cons s rest ih =>
      obtain ⟨hfirst, hne, hrest⟩ := h
      exact ⟨Nat.le_trans hlo hfirst, hne, ih hrest (Nat.le_refl _)⟩

theorem append (h : Laid lo mid spans) (h' : Laid mid hi others) :
    Laid lo hi (spans ++ others) := by
  induction spans generalizing lo with
  | nil => exact h'.mono h (Nat.le_refl _)
  | cons s rest ih =>
      obtain ⟨hfirst, hne, hrest⟩ := h
      exact ⟨hfirst, hne, ih hrest⟩

end Laid

/-- Spans are laid out by where each of them stands and how any two of them do. -/
theorem laid_iff : Laid lo hi spans ↔ lo ≤ hi ∧
    (∀ s ∈ spans, lo ≤ s.offset ∧ s.offset < s.stop ∧ s.stop ≤ hi) ∧
      spans.Pairwise fun s later => s.stop ≤ later.offset := by
  induction spans generalizing lo with
  | nil => simp [Laid]
  | cons s rest ih =>
      rw [Laid, ih, List.forall_mem_cons, List.pairwise_cons]
      constructor
      · rintro ⟨hfirst, hne, hstop, hall, hapart⟩
        refine ⟨by omega, ⟨⟨hfirst, hne, hstop⟩, fun later hlater => ?_⟩, ?_, hapart⟩
        · obtain ⟨hbehind, hrest⟩ := hall later hlater
          exact ⟨by omega, hrest⟩
        · exact fun later hlater => (hall later hlater).1
      · rintro ⟨-, ⟨⟨hfirst, hne, hstop⟩, hall⟩, hbehind, hapart⟩
        refine ⟨hfirst, hne, hstop, fun later hlater => ?_, hapart⟩
        exact ⟨hbehind later hlater, (hall later hlater).2⟩

end Span

/-! ## Trees -/

namespace Node

variable {n : Node} {ns others : List Node} {lo lo' mid hi hi' : Nat}

/-- A node is not empty, its span contains those of its children, and these stand one behind the
other, in order. -/
structure Nested (n : Node) : Prop where
  nonempty : n.span.offset < n.span.stop
  contains : ∀ c ∈ n.children, n.span.offset ≤ c.span.offset ∧ c.span.stop ≤ n.span.stop
  apart : n.children.Pairwise fun c later => c.span.stop ≤ later.span.offset

/-- Trees that are nested throughout stand one behind the other between two places. -/
structure Laid (lo hi : Nat) (ns : List Node) : Prop where
  nested : ∀ n ∈ ns, n.Throughout Nested
  spans : Span.Laid lo hi (ns.map (·.span))

theorem laid_nil (h : lo ≤ hi) : Laid lo hi [] := ⟨by simp, h⟩

theorem laid_cons : Laid lo hi (n :: ns) ↔ n.Throughout Nested ∧ lo ≤ n.span.offset ∧
    Laid n.span.stop hi ns := by
  constructor
  · rintro ⟨hnested, hfirst, -, hrest⟩
    exact ⟨hnested n List.mem_cons_self, hfirst, fun m hm => hnested m (.tail _ hm), hrest⟩
  · rintro ⟨hn, hfirst, hnested, hrest⟩
    exact ⟨List.forall_mem_cons.2 ⟨hn, hnested⟩, hfirst, hn.here.nonempty, hrest⟩

theorem laid_singleton : Laid lo hi [n] ↔
    n.Throughout Nested ∧ lo ≤ n.span.offset ∧ n.span.stop ≤ hi := by
  rw [laid_cons]
  exact and_congr_right fun _ => and_congr_right fun _ => ⟨fun h => h.spans, laid_nil⟩

namespace Laid

theorem le (h : Laid lo hi ns) : lo ≤ hi := h.spans.le

theorem mono (h : Laid lo hi ns) (hlo : lo' ≤ lo) (hhi : hi ≤ hi') : Laid lo' hi' ns :=
  ⟨h.nested, h.spans.mono hlo hhi⟩

theorem append (h : Laid lo mid ns) (h' : Laid mid hi others) : Laid lo hi (ns ++ others) :=
  ⟨List.forall_mem_append.2 ⟨h.nested, h'.nested⟩, by
    rw [List.map_append]
    exact h.spans.append h'.spans⟩

/-- A tree that covers the place of its children is nested if they are laid out there. -/
theorem parent (h : Laid n.span.offset n.span.stop n.children)
    (nonempty : n.span.offset < n.span.stop) : n.Throughout Nested := by
  obtain ⟨-, hall, hapart⟩ := Span.laid_iff.1 h.spans
  have hcontains : ∀ c ∈ n.children, n.span.offset ≤ c.span.offset ∧ c.span.stop ≤ n.span.stop := by
    intro c hc
    obtain ⟨hlo, -, hhi⟩ := hall c.span (List.mem_map_of_mem hc)
    exact ⟨hlo, hhi⟩
  exact throughout_iff.2 ⟨⟨nonempty, hcontains, List.pairwise_map.1 hapart⟩, h.nested⟩

end Laid

/-- The children of a nested tree are laid out inside it. -/
theorem laid_children (h : n.Throughout Nested) :
    Laid n.span.offset n.span.stop n.children := by
  refine ⟨fun c hc => h.child hc, Span.laid_iff.2 ⟨n.span.offset_le_stop, ?_, ?_⟩⟩
  · intro s hs
    obtain ⟨c, hc, rfl⟩ := List.mem_map.1 hs
    obtain ⟨hlo, hhi⟩ := h.here.contains c hc
    exact ⟨hlo, (h.child hc).here.nonempty, hhi⟩
  · exact List.pairwise_map.2 h.here.apart

/-- A tree that gets a wider span stays nested. -/
theorem laid_widened {span : Span} (hoffset : span.offset = lo) (hstop : span.stop = hi)
    (h : Laid lo hi [n]) : Laid lo hi [{ n with span }] := by
  subst hoffset hstop
  obtain ⟨hn, hfirst, hlast⟩ := laid_singleton.1 h
  have hinside : Laid span.offset span.stop n.children := (laid_children hn).mono hfirst hlast
  have hne := hn.here.nonempty
  have hwide : span.offset < span.stop := by omega
  exact laid_singleton.2 ⟨Laid.parent hinside hwide, Nat.le_refl _, Nat.le_refl _⟩

/-- No part of a nested tree ends behind it. -/
theorem Throughout.stop_le (h : n.Throughout Nested) :
    n.Throughout fun m => m.span.stop ≤ n.span.stop := by
  intro m hm
  induction hm with
  | self => exact Nat.le_refl _
  | child hc _ ih => exact Nat.le_trans (ih (h.child hc)) (h.here.contains _ hc).2

/-! ## Chains -/

/-- A cell stands where its item and the chain behind it do. -/
theorem laid_cell {head : Node} {tail : Option Node} (h : Laid lo hi (head :: tail.toList)) :
    Laid lo hi [cons head tail] := by
  obtain ⟨hhead, hfirst, htail⟩ := laid_cons.1 h
  have hne := hhead.here.nonempty
  cases tail with
  | none =>
      have hinside : Laid head.span.offset head.span.stop [head] :=
        laid_singleton.2 ⟨hhead, Nat.le_refl _, Nat.le_refl _⟩
      exact laid_singleton.2 ⟨hinside.parent hne, hfirst, htail.le⟩
  | some t =>
      obtain ⟨ht, hbehind, hstop⟩ := laid_singleton.1 htail
      have hupTo := Span.upTo_of_stop_le hbehind
      have hoffset : (cons head (some t)).span.offset = head.span.offset := hupTo.offset_hull
      have hend : (cons head (some t)).span.stop = t.span.stop := hupTo.stop_hull
      have hinside : Laid head.span.offset t.span.stop [head, t] :=
        laid_cons.2 ⟨hhead, Nat.le_refl _, laid_singleton.2 ⟨ht, hbehind, Nat.le_refl _⟩⟩
      refine laid_singleton.2 ⟨Laid.parent ?_ ?_, ?_, ?_⟩
      · rw [hoffset, hend]
        exact hinside
      · have := hupTo.stop
        omega
      · omega
      · omega

theorem laid_argumentList (h : Laid lo hi ns) : Laid lo hi (argumentList ns).toList := by
  induction ns generalizing lo with
  | nil => exact h
  | cons n rest ih =>
      obtain ⟨hn, hfirst, hrest⟩ := laid_cons.1 h
      exact laid_cell (laid_cons.2 ⟨hn, hfirst, ih hrest⟩)

theorem laid_statementList {head tail : Option Node} (hhead : Laid lo mid head.toList)
    (htail : Laid mid hi tail.toList) : Laid lo hi (Typing.statementList head tail).toList := by
  cases head with
  | none => exact htail.mono hhead.le (Nat.le_refl _)
  | some n => exact laid_cell (hhead.append htail)

theorem laid_items (h : Laid lo hi [n]) : Laid lo hi n.items := by
  fun_induction items n generalizing lo with
  | case1 head ty span =>
      obtain ⟨hn, hfirst, hstop⟩ := laid_singleton.1 h
      exact (laid_children hn).mono hfirst hstop
  | case2 head tail ty span ih =>
      obtain ⟨hn, hfirst, hstop⟩ := laid_singleton.1 h
      have hparts : Laid lo hi [head, tail] := (laid_children hn).mono hfirst hstop
      obtain ⟨hhead, hlo, htail⟩ := laid_cons.1 hparts
      exact laid_cons.2 ⟨hhead, hlo, ih htail⟩
  | case3 n => exact h

theorem laid_ofItems {before : List Node} {last : Node} (h : Laid lo hi (before ++ [last])) :
    Laid lo hi [ofItems before last] := by
  induction before generalizing lo with
  | nil => exact laid_cell h
  | cons n rest ih =>
      obtain ⟨hn, hfirst, hrest⟩ := laid_cons.1 h
      exact laid_cell (laid_cons.2 ⟨hn, hfirst, ih hrest⟩)

/-- A body with a return behind it, which stands at the closing brace. -/
theorem laid_appendReturn {body : Option Node} {closing : Span}
    (h : Laid lo closing.offset body.toList) (nonempty : closing.offset < closing.stop) :
    Laid lo closing.stop [appendReturn body closing] := by
  have hitems : Laid lo closing.offset ((body.map items).getD []) := by
    cases body with
    | none => exact h
    | some n => exact laid_items h
  obtain ⟨before, last, heq, -, hcase⟩ := appendReturn_eq body closing
  rw [heq]
  refine laid_ofItems ?_
  rcases hcase with hbody | ⟨hbody, rfl, -⟩
  · rw [← hbody]
    exact hitems.mono (Nat.le_refl _) closing.offset_le_stop
  · rw [← hbody]
    refine hitems.append (laid_singleton.2 ⟨?_, Nat.le_refl _, Nat.le_refl _⟩)
    exact Laid.parent (laid_nil closing.offset_le_stop) nonempty

end Node

end Cmm
