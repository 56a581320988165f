import Cmm.Proofs.Env
import Cmm.Proofs.Sentence.Sound
import Cmm.Proofs.Sentence.Statements

/-!
# The parser accepts exactly the language

* `takes_declaration` — every declaration is read up to its end, whatever follows. The kind behind
  its first name tells variables and functions apart, and the one behind a header prototypes and
  definitions.
* `takes_program` — a sentence is read to its end.
* `Analysis.accepts_exactly` — a list of tokens leaves a table if and only if the kinds in front of
  its first end mark are a sentence.
-/

set_option autoImplicit false

namespace Cmm

namespace Grammar

open Parse Ebnf Sentence Computability

variable {u v w k : List Kind} {n : Nat}

/-! ## Variables -/

theorem first_base (hw : w ∈ words .base) : ∃ spec, w = [.typeWord spec] := by
  rw [words_base] at hw
  obtain ⟨x, hx, rfl⟩ := mem_letters.1 hw
  obtain ⟨spec, -, rfl⟩ := List.mem_map.1 hx
  exact ⟨spec, rfl⟩

theorem takes_typeWord (hw : w ∈ words .base) : Takes typeWord w k := by
  obtain ⟨spec, rfl⟩ := first_base hw
  exact .kind rfl (.cons (.advance (by simp)) fun _ => .pure spec)

theorem takes_declarator {name : String} {span : Span} (hw : w ∈ size)
    (hk : Kind.first k ≠ .punct .leftBracket) : Takes (declarator name span) w k := by
  rcases hw with hw | rfl
  · obtain ⟨u, hu, rfl⟩ := mem_letter_mul.1 hw
    obtain ⟨v, hv, rfl⟩ := mem_letter_mul.1 hu
    rw [mem_letter.1 hv]
    refine .accept (by simp) (.cons (.require (by simp)) fun count => ?_)
    exact .cons .expect fun _ => .spanFrom fun _ => .pure _
  · exact .refuse hk (.pure _)

/-- The variables behind the first name of a declaration end in their semicolon. -/
theorem takes_declarators {name : String} {span : Span}
    (hw : w ∈ size * ((punct .comma * words .variable)∗ * punct .semicolon))
    (hn : w.length ≤ n) : Takes (declarators n name span) w k := by
  obtain ⟨u, hu, m, hm, rfl⟩ := Language.mem_mul.1 hw
  obtain ⟨v, hv, rfl⟩ := mem_mul_letter.1 hm
  rw [List.length_append, List.length_append] at hn
  have hfollow : Kind.first (v ++ ([.punct .semicolon] ++ k)) ≠ .punct .leftBracket := by
    rcases Kind.first_others hv ([.punct .semicolon] ++ k) with h | h
    · rw [h]
      simp
    · rw [h]
      simp [Kind.first]
  refine .bind (takes_declarator hu (by rwa [List.append_assoc])) fun first => ?_
  refine .bind (.holding ?_) fun others => .cons Takes.expect.holding fun _ => .pure _
  refine .others hv (by simp [Kind.first]) (.pure []) fun v' hv' hlt => ?_
  refine .commaSeparated (F := (· ≠ .punct .leftBracket)) (n := n) (by simp) ?_ _ hv' (by omega)
    (by omega) (by simp [Kind.first]) (by simp [Kind.first])
  intro w hw _ k hk
  rw [words_variable] at hw
  obtain ⟨v, hv, rfl⟩ := mem_letter_mul.1 hw
  exact .cons .name fun name => takes_declarator hv hk

/-! ## Headers -/

theorem takes_param (hw : w ∈ parameter) (hk : Kind.first k ≠ .punct .leftBracket) :
    Takes param w k := by
  obtain ⟨b, hb, m, hm, rfl⟩ := Language.mem_mul.1 hw
  obtain ⟨u, hu, rfl⟩ := mem_letter_mul.1 hm
  refine .bind (takes_typeWord hb) fun spec => .cons .name fun name => ?_
  rcases hu with hu | rfl
  · obtain ⟨v, hv, rfl⟩ := mem_letter_mul.1 hu
    rw [mem_letter.1 hv]
    exact .acceptThen (by simp) (.cons .expect fun _ => .pure _)
  · exact .refuseThen hk (.pure _)

/-- The kind behind a leading `void` tells the empty list from a parameter. -/
theorem takes_parameters
    (hw : w ∈ punct .leftParen * (words .parameters * punct .rightParen)) (hn : w.length ≤ n) :
    Takes (parameters n) w k := by
  obtain ⟨m, hm, rfl⟩ := mem_letter_mul.1 hw
  obtain ⟨u, hu, rfl⟩ := mem_mul_letter.1 hm
  rw [List.length_cons, List.length_append] at hn
  rw [words_parameters] at hu
  refine .cons .expect fun _ => ?_
  rcases hu with (rfl | hu) | hu
  · refine .kind rfl (.kindBehind rfl ?_)
    rw [if_neg (by simp [Kind.first]), show Kind.first _ = Kind.punct .rightParen from rfl,
      if_pos rfl]
    exact .bind (.pure []) fun params => .cons .expect fun _ => .pure params
  · rw [mem_letter.1 hu]
    refine .kind rfl (.kindBehind rfl ?_)
    rw [if_pos ⟨rfl, rfl⟩]
    refine .cons (.advance (by simp)) fun _ => ?_
    exact .bind (.pure []) fun params => .cons .expect fun _ => .pure params
  · have hfirst : ∃ spec v, u = .typeWord spec :: .identifier :: v := by
      obtain ⟨p, hp, others, -, rfl⟩ := Language.mem_mul.1 hu
      obtain ⟨b, hb, _, hname, rfl⟩ := Language.mem_mul.1 hp
      obtain ⟨spec, rfl⟩ := first_base hb
      obtain ⟨v, -, rfl⟩ := mem_letter_mul.1 hname
      exact ⟨spec, _, rfl⟩
    obtain ⟨spec, v, rfl⟩ := hfirst
    refine .kind rfl (.kindBehind rfl ?_)
    rw [if_neg (by simp [Kind.second, Kind.first]), if_neg (by simp [Kind.first])]
    refine .bind ?_ fun params => .cons .expect fun _ => .pure params
    exact .commaSeparated (F := (· ≠ .punct .leftBracket)) (n := n) (by simp)
      (fun w hw _ k hk => takes_param hw hk) _ hu (by omega) (by omega) (by simp [Kind.first])
      (by simp [Kind.first])

theorem takes_prototype (hw : w ∈ header) (hn : w.length ≤ n) : Takes (prototype n) w k := by
  obtain ⟨u, hu, rfl⟩ := mem_letter_mul.1 hw
  rw [List.length_cons] at hn
  exact .cons .name fun name => (takes_parameters hu (by omega)).last fun params => .pure _

theorem takes_prototypes (hw : w ∈ (punct .comma * header)∗ * punct .semicolon)
    (hn : w.length ≤ n) : Takes (prototypes n) w k := by
  have hend : ∀ others : List Item, Takes (do
      holding others (expect .semicolon .prototype)
      return others ++ [.endPrototypes]) [.punct .semicolon] k :=
    fun others => .cons Takes.expect.holding fun _ => .pure _
  obtain ⟨u, hu, rfl⟩ := mem_mul_letter.1 hw
  rcases mem_kstar_iff.1 hu with rfl | ⟨m, hm, v, hv, rfl⟩
  · exact .refuse (by simp [Kind.first]) (.bind (.pure []) hend)
  · obtain ⟨first, hfirst, rfl⟩ := mem_letter_mul.1 hm
    rw [List.length_append, List.length_append, List.length_cons] at hn
    rw [List.cons_append, List.cons_append]
    refine .accept (by simp) (.bind (.map ?_) hend)
    refine .commaSeparated (F := Anywhere) (n := n) trivial
      (fun w hw hlen k _ => takes_prototype hw hlen) _ (Language.append_mem_mul hfirst hv) ?_ ?_
      trivial (by simp [Kind.first])
    · rw [List.length_append]
      omega
    · rw [List.length_append]
      omega

/-! ## Declarations -/

/-- The declarations at the beginning of a body end where no type word follows. -/
theorem takes_locals {fuel : Nat} (hw : w ∈ (words .base * variableList)∗) (hn : w.length ≤ n)
    (hfuel : w.length ≤ fuel) (hk : (Kind.first k).isTypeWord = false) :
    Takes (locals n fuel) w k := by
  induction fuel generalizing w with
  | zero =>
      rw [List.eq_nil_of_length_eq_zero (Nat.le_zero.1 hfuel)]
      exact .pure []
  | succ fuel ih =>
      rcases mem_kstar_iff.1 hw with rfl | ⟨m, hm, v, hv, rfl⟩
      · refine .kind rfl ?_
        rw [List.nil_append, hk]
        exact .pure []
      · obtain ⟨b, hb, u, hu, rfl⟩ := Language.mem_mul.1 hm
        obtain ⟨spec, rfl⟩ := first_base hb
        rw [variableList_eq] at hu
        obtain ⟨u', hu', rfl⟩ := mem_letter_mul.1 hu
        simp only [List.cons_append, List.nil_append, List.length_cons, List.length_append]
          at hn hfuel ⊢
        refine .kind rfl ?_
        rw [show (Kind.first _).isTypeWord = true from rfl, if_pos rfl]
        refine .cons (takes_typeWord hb) fun spec => .cons .name fun name => ?_
        refine Takes.bind (.holding (takes_declarators hu' (by omega))) fun declared => ?_
        exact Takes.last (.holding (ih hv (by omega) (by omega))) fun _ => .pure _

/-- Behind the declarations of a body stands no type word. -/
theorem not_typeWord_behind_locals (hw : w ∈ (words .statement)∗) :
    (Kind.first (w ++ .punct .rightBrace :: k)).isTypeWord = false := by
  rcases mem_kstar_iff.1 hw with rfl | ⟨s, hs, v, -, rfl⟩
  · rfl
  · obtain ⟨x, s', rfl, hx⟩ := first_statement hs
    cases x with
    | typeWord => simp [starters] at hx
    | _ => rfl

theorem takes_functionBody (hw : w ∈ punct .leftBrace * (body * punct .rightBrace))
    (hn : w.length ≤ n) : Takes (functionBody n) w k := by
  obtain ⟨m, hm, rfl⟩ := mem_letter_mul.1 hw
  obtain ⟨_, hbody, rfl⟩ := mem_mul_letter.1 hm
  obtain ⟨u, hu, v, hv, rfl⟩ := Language.mem_mul.1 hbody
  rw [List.length_cons, List.length_append, List.length_append] at hn
  have hfollow : (Kind.first (v ++ [.punct .rightBrace] ++ k)).isTypeWord = false := by
    rw [List.append_assoc]
    exact not_typeWord_behind_locals hv
  rw [List.append_assoc]
  refine .cons .expect fun _ => .bind (takes_locals hu (by omega) (by omega) hfollow) fun _ => ?_
  refine .holding (.bind (takes_statements (n := n) ?_ hv (by omega) (by omega) rfl) fun _ => ?_)
  · exact fun b u k hu hlen hk => takes_statement hu hlen hk
  · exact .next rfl fun closing _ => .cons Takes.expect.holding fun _ => .pure _

theorem takes_afterHeader_body {header : Item}
    (hw : w ∈ punct .leftBrace * (body * punct .rightBrace)) (hn : w.length ≤ n) :
    Takes (afterHeader n false header) w k := by
  have hfirst : Kind.first (w ++ k) = .punct .leftBrace := by
    obtain ⟨v, -, rfl⟩ := mem_letter_mul.1 hw
    rfl
  refine .kind hfirst ?_
  rw [if_pos (by simp)]
  exact (takes_functionBody hw hn).holding.last fun _ => .pure _

theorem takes_afterHeader_prototypes {header : Item} {isExtern : Bool}
    (hw : w ∈ (punct .comma * Sentence.header)∗ * punct .semicolon) (hn : w.length ≤ n) :
    Takes (afterHeader n isExtern header) w k := by
  have hne : (!isExtern && Kind.first (w ++ k) == .punct .leftBrace) = false := by
    obtain ⟨u, hu, rfl⟩ := mem_mul_letter.1 hw
    rcases mem_kstar_iff.1 hu with rfl | ⟨m, hm, v, -, rfl⟩
    · exact Bool.and_false _
    · obtain ⟨u', -, rfl⟩ := mem_letter_mul.1 hm
      exact Bool.and_false _
  refine .kind rfl ?_
  rw [hne]
  exact (takes_prototypes hw hn).holding.last fun _ => .pure _

theorem takes_declaration_variables (hw : w ∈ words .base * variableList) (hn : w.length ≤ n) :
    Takes (declaration n) w k := by
  obtain ⟨b, hb, u, hu, rfl⟩ := Language.mem_mul.1 hw
  obtain ⟨spec, rfl⟩ := first_base hb
  rw [variableList_eq] at hu
  obtain ⟨v, hv, rfl⟩ := mem_letter_mul.1 hu
  have hne : Kind.first (v ++ k) ≠ .punct .leftParen := by
    obtain ⟨s, hs, m, hm, rfl⟩ := Language.mem_mul.1 hv
    obtain ⟨others, hothers, rfl⟩ := mem_mul_letter.1 hm
    rcases hs with hs | rfl
    · obtain ⟨s', -, rfl⟩ := mem_letter_mul.1 hs
      simp [Kind.first]
    · rw [List.nil_append, List.append_assoc]
      rcases Kind.first_others hothers ([.punct .semicolon] ++ k) with h | h
      · rw [h]
        simp
      · rw [h]
        simp [Kind.first]
  simp only [List.length_append, List.length_cons] at hn
  refine .refuseThen (by simp [Kind.first]) (.cons (takes_typeWord hb) fun spec => ?_)
  refine .cons .name fun name => .holding (.kind rfl ?_)
  rw [if_neg hne, if_neg Bool.false_ne_true]
  exact (takes_declarators hv (by omega)).last fun _ => .pure _

theorem takes_declaration_prototypes
    (hw : w ∈ (keyword .external + 1) * (words .base * (list header * punct .semicolon)))
    (hn : w.length ≤ n) : Takes (declaration n) w k := by
  obtain ⟨e, he, m, hm, rfl⟩ := Language.mem_mul.1 hw
  obtain ⟨b, hb, u, hu, rfl⟩ := Language.mem_mul.1 hm
  obtain ⟨spec, rfl⟩ := first_base hb
  rw [list, mul_assoc] at hu
  obtain ⟨h, hh, r, hr, rfl⟩ := Language.mem_mul.1 hu
  obtain ⟨p, hp, rfl⟩ := mem_letter_mul.1 hh
  obtain ⟨p', hp', rfl⟩ := mem_letter_mul.1 hp
  simp only [List.length_append, List.length_cons] at hn
  refine .acceptOptional he (by simp) (by simp [Kind.first]) fun isExtern => ?_
  refine .cons (takes_typeWord hb) fun spec => .cons .name fun name => .holding ?_
  refine .kind rfl ?_
  rw [show Kind.first _ = Kind.punct .leftParen from rfl, if_pos rfl]
  refine .bind (takes_parameters hp ?_) fun params => ?_
  · rw [List.length_cons]
    omega
  · exact (takes_afterHeader_prototypes hr (by omega)).last fun _ => .pure _

theorem takes_declaration_body
    (hw : w ∈ words .base * (header * (punct .leftBrace * (body * punct .rightBrace))))
    (hn : w.length ≤ n) : Takes (declaration n) w k := by
  obtain ⟨b, hb, u, hu, rfl⟩ := Language.mem_mul.1 hw
  obtain ⟨spec, rfl⟩ := first_base hb
  obtain ⟨h, hh, r, hr, rfl⟩ := Language.mem_mul.1 hu
  obtain ⟨p, hp, rfl⟩ := mem_letter_mul.1 hh
  obtain ⟨p', hp', rfl⟩ := mem_letter_mul.1 hp
  simp only [List.length_append, List.length_cons] at hn
  refine .refuseThen (by simp [Kind.first]) (.cons (takes_typeWord hb) fun spec => ?_)
  refine .cons .name fun name => .holding (.kind rfl ?_)
  rw [show Kind.first _ = Kind.punct .leftParen from rfl, if_pos rfl]
  refine .bind (takes_parameters hp ?_) fun params => ?_
  · rw [List.length_cons]
    omega
  · exact (takes_afterHeader_body hr (by omega)).last fun _ => .pure _

/-- **Every declaration is read up to its end**, whatever follows. -/
theorem takes_declaration (hw : w ∈ words .declaration) (hn : w.length ≤ n) :
    Takes (declaration n) w k := by
  rw [words_declaration] at hw
  rcases hw with (hw | hw) | hw
  · exact takes_declaration_variables hw hn
  · exact takes_declaration_prototypes hw hn
  · exact takes_declaration_body hw hn

/-- **A sentence is read to its end.** -/
theorem takes_program {fuel : Nat} (hw : w ∈ words .program) (hn : w.length ≤ n)
    (hfuel : w.length ≤ fuel) : Takes (program n fuel) w [] := by
  rw [words_program] at hw
  induction fuel generalizing w with
  | zero =>
      rw [List.eq_nil_of_length_eq_zero (Nat.le_zero.1 hfuel)]
      exact .pure []
  | succ fuel ih =>
      rcases mem_kstar_iff.1 hw with rfl | ⟨u, hu, v, hv, rfl⟩
      · refine .kind (x := .endOfFile) rfl ?_
        rw [if_pos rfl]
        exact .pure []
      · obtain ⟨x, u', rfl, hx⟩ := first_declaration hu
        have hne : x ≠ .endOfFile := by
          rintro rfl
          simp [bases] at hx
        rw [List.length_append, List.length_cons] at hn hfuel
        refine .kind rfl ?_
        rw [show Kind.first _ = x from rfl, if_neg hne]
        refine .bind (takes_declaration hu ?_) fun items => ?_
        · rw [List.length_cons]
          omega
        · exact (ih hv (by omega) (by omega)).holding.last fun _ => .pure _

end Grammar

/-! ## Lists of tokens -/

/-- The kinds in front of the first end mark. -/
def Token.kindsBeforeEnd (tokens : List Token) : List Kind :=
  (tokens.map (·.kind)).takeWhile (· ≠ .endOfFile)

theorem Token.length_kindsBeforeEnd_le (tokens : List Token) :
    (kindsBeforeEnd tokens).length ≤ tokens.length := by
  refine (List.takeWhile_prefix _).length_le.trans ?_
  rw [List.length_map]

theorem Token.end_notMem_kindsBeforeEnd (tokens : List Token) :
    .endOfFile ∉ kindsBeforeEnd tokens := by
  intro hmem
  simpa using List.all_eq_true.1 List.all_takeWhile _ hmem

/-- The tokens in front of the first end mark. -/
def Token.beforeEnd (tokens : List Token) : List Token := tokens.takeWhile (·.kind ≠ .endOfFile)

theorem Cursor.rest_start (tokens : List Token) :
    (Cursor.start tokens).rest = Token.beforeEnd tokens := by
  have hends : (fun t => !Cursor.isEnd t) = fun t : Token => decide (t.kind ≠ .endOfFile) := by
    funext t
    simp [Cursor.isEnd, beq_eq_decide]
  unfold Cursor.start Token.beforeEnd
  rw [hends]

theorem Cursor.kinds_start (tokens : List Token) :
    (Cursor.start tokens).kinds = Token.kindsBeforeEnd tokens := by
  unfold Cursor.kinds Token.kindsBeforeEnd
  rw [rest_start, Token.beforeEnd, List.takeWhile_map]
  rfl

theorem Cursor.kind_stop_start (tokens : List Token) :
    (Cursor.start tokens).stop.kind = .endOfFile := by
  unfold Cursor.start
  cases hfind : tokens.find? Cursor.isEnd with
  | none => rfl
  | some t => simpa [Cursor.isEnd] using List.find?_some hfind

theorem Reading.fault?_ofTokens (tokens : List Token) : (ofTokens tokens).fault? = none ↔
    ∃ items c,
      Parse.Reads (Grammar.program tokens.length tokens.length) (.start tokens) items c := by
  unfold ofTokens Parse.Reads StateT.run
  cases Grammar.program tokens.length tokens.length (.start tokens) with
  | ok r =>
      obtain ⟨items, c⟩ := r
      simp
  | error i => simp

/-- Reading is interrupted where the kinds in front of the end are no sentence, and only there. -/
theorem Reading.complete_iff (tokens : List Token) : (ofTokens tokens).fault? = none ↔
    Token.kindsBeforeEnd tokens ∈ Sentence.words .program := by
  have hstop := Cursor.kind_stop_start tokens
  have hkinds := Cursor.kinds_start tokens
  have hlen := Token.length_kindsBeforeEnd_le tokens
  rw [fault?_ofTokens]
  constructor
  · rintro ⟨items, c, hread⟩
    rw [← hkinds] at hlen ⊢
    refine Grammar.spells_program hstop ?_ hlen hread
    rw [hkinds]
    exact Token.end_notMem_kindsBeforeEnd tokens
  · intro hmem
    obtain ⟨items, c, hread, -⟩ := Grammar.takes_program hmem hlen hlen (.start tokens) hstop
      (by rw [hkinds, List.append_nil])
    exact ⟨items, c, hread⟩

namespace Analysis

theorem table?_ofTokens (tokens : List Token) :
    (ofTokens tokens).table?.isSome ↔ (Reading.ofTokens tokens).fault? = none := by
  unfold ofTokens ofReading
  cases (Reading.ofTokens tokens).fault? with
  | none => simp
  | some f => simp

/-- **The parser accepts exactly the language.** A list of tokens leaves a table if and only if the
kinds in front of its first end mark are a sentence. Other tokens of the same kinds are accepted or
refused with it, whatever their texts and places are and whatever is reported on them. -/
theorem accepts_exactly (tokens : List Token) :
    ((ofTokens tokens).table?.isSome ↔
      Token.kindsBeforeEnd tokens ∈ Sentence.words .program) ∧
    ∀ others : List Token, others.map (·.kind) = tokens.map (·.kind) →
      ((ofTokens others).table?.isSome ↔ (ofTokens tokens).table?.isSome) := by
  have haccepts : ∀ tokens, (ofTokens tokens).table?.isSome ↔
      Token.kindsBeforeEnd tokens ∈ Sentence.words .program := fun tokens =>
    (table?_ofTokens tokens).trans (Reading.complete_iff tokens)
  refine ⟨haccepts tokens, fun others hsame => ?_⟩
  rw [haccepts others, haccepts tokens, Token.kindsBeforeEnd, hsame, Token.kindsBeforeEnd]

/-- `int x, x;` is reported, `int x, y;` is not, and both are accepted. -/
theorem accepts_redeclared :
    let twice := Token.spaced 0 [(.typeWord .int, "int"), (.identifier, "x"), (.punct .comma, ","),
      (.identifier, "x"), (.punct .semicolon, ";")]
    let apart := Token.spaced 0 [(.typeWord .int, "int"), (.identifier, "x"), (.punct .comma, ","),
      (.identifier, "y"), (.punct .semicolon, ";")]
    (ofTokens twice).reports.length = 1 ∧ (ofTokens apart).reports.length = 0 ∧
      (ofTokens apart).table?.isSome ∧ (ofTokens twice).table?.isSome := by
  refine ⟨by decide +kernel, by decide +kernel, ?_⟩
  have haccepted : (ofTokens (Token.spaced 0 [(.typeWord .int, "int"), (.identifier, "x"),
      (.punct .comma, ","), (.identifier, "y"), (.punct .semicolon, ";")])).table?.isSome := by
    decide +kernel
  exact ⟨haccepted, ((accepts_exactly _).2 _ (by decide)).2 haccepted⟩

end Analysis

end Cmm
