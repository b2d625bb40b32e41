import BlockLexer.Proofs.Inert
import BlockLexer.Proofs.Refusals

/-!
# Crossing an expression

Step by step a scan crosses the characters that an expression sees.

* `CountsTo` says which brackets are open behind some characters.
* `Scan.InExpression` is a scan within an expression, and `Scan.ahead` is what the expression
  still sees from there on.
* `Scan.Crosses` are the three things that a step does with it, and `Scan.crosses_of_step` goes
  through the rules.
* `Scan.isInExpression_of_step` says what such a step may yield.
-/

namespace BlockLexer

open Text Pattern Lexeme

/-! ## Pieces of an expression -/

/-- The pieces of an expression: its tokens, what stands between them, and strings with their
parts. -/
def PieceKind.IsInExpression : PieceKind → Prop
  | .token kind => kind.IsInExpression ∨ kind.isFiltered = true
  | .stringStart _ _ | .stringText | .stringEscape | .stringLineBreak | .stringEnd => True

theorem PieceKind.isInExpression_of_isQuiet {kind : PieceKind} (h : kind.isQuiet = true) :
    kind.IsInExpression := by
  cases kind with
  | token kind => exact .inr h
  | stringStart | stringText | stringEscape | stringLineBreak | stringEnd => trivial

/-- The tokens that such pieces make belong to an expression as well. -/
theorem Assembled.isInExpression {pieces : List Piece} {tokens : List Token}
    (h : Assembled pieces tokens) (hpieces : ∀ piece ∈ pieces, piece.kind.IsInExpression) :
    ∀ token ∈ tokens, token.kind.IsInExpression := by
  induction h with
  | nil => exact List.forall_mem_nil _
  | drop _ _ _ ih => exact ih (List.forall_mem_append.1 hpieces).2
  | keep hmakes hkept _ ih =>
    obtain ⟨hown, hmore⟩ := List.forall_mem_append.1 hpieces
    refine List.forall_mem_cons.2 ⟨?_, ih hmore⟩
    cases hmakes with
    | token hkind =>
      have hpiece := List.forall_mem_singleton.1 hown
      rw [hkind] at hpiece
      exact hpiece.resolve_right (by simp [hkept])
    | string _ _ _ hliteral =>
      rw [Assembly.kind_of_literal hliteral]
      exact .inr (.inl rfl)

/-! ## Counting brackets -/

/-- These brackets are open behind some characters: so many more of each kind were opened than
closed. -/
def CountsTo (chars : List Char) (brackets : Brackets) : Prop :=
  ∀ bracket : Bracket, chars.count bracket.openingChar =
    chars.count bracket.closingChar + brackets.depth bracket

section Counting

variable {chars word front back : List Char} {c d : Char} {brackets brackets' : Brackets}
  {kind : Kind}

theorem countsTo_nil : CountsTo [] {} := by
  intro bracket
  rw [Brackets.depth_empty]
  rfl

/-- No bracket is open just if all are closed as often as they are opened. -/
theorem CountsTo.isEven_iff (h : CountsTo chars brackets) :
    IsEven chars ↔ brackets.isBalanced = true := by
  rw [Brackets.isBalanced_iff]
  refine forall_congr' fun bracket => ?_
  have hcount := h bracket
  omega

/-- No mark is inert. -/
theorem ne_of_isInert (hc : isInert c = true) (hd : d ∈ marks) : c ≠ d := by
  rintro rfl
  simp [isInert, hd] at hc

theorem Bracket.mem_marks (bracket : Bracket) :
    bracket.openingChar ∈ marks ∧ bracket.closingChar ∈ marks := by
  cases bracket <;> decide

/-- Characters that are no brackets do not count. -/
theorem CountsTo.append (h : CountsTo chars brackets) (hword : ∀ c ∈ word, isInert c = true) :
    CountsTo (chars ++ word) brackets := by
  intro bracket
  have hnot {d : Char} (hd : d ∈ marks) : word.count d = 0 :=
    List.count_eq_zero.2 fun hmem => ne_of_isInert (hword d hmem) hd rfl
  rw [List.count_append, List.count_append, hnot bracket.mem_marks.1, hnot bracket.mem_marks.2]
  exact h bracket

/-- The end of a line does not count. -/
theorem CountsTo.lineFeed (h : CountsTo chars brackets) : CountsTo (chars ++ ['\n']) brackets := by
  intro bracket
  have hnone : ['\n'].count bracket.openingChar = 0 ∧ ['\n'].count bracket.closingChar = 0 := by
    cases bracket <;> decide
  rw [List.count_append, List.count_append, hnone.1, hnone.2]
  exact h bracket

/-- A bracket opens or closes one of the three kinds. -/
theorem exists_of_isBracket (h : isBracket c = true) :
    ∃ bracket : Bracket, c = bracket.openingChar ∨ c = bracket.closingChar := by
  simp only [isBracket, List.contains_iff_mem, List.mem_cons, List.not_mem_nil, or_false] at h
  rcases h with rfl | rfl | rfl | rfl | rfl | rfl
  · exact ⟨.paren, .inl rfl⟩
  · exact ⟨.paren, .inr rfl⟩
  · exact ⟨.array, .inl rfl⟩
  · exact ⟨.array, .inr rfl⟩
  · exact ⟨.dict, .inl rfl⟩
  · exact ⟨.dict, .inr rfl⟩

theorem isBracket_closingChar (bracket : Bracket) : isBracket bracket.closingChar = true := by
  cases bracket <;> rfl

theorem hides_of_isBracket (h : isBracket c = true) : hides c = false := by
  obtain ⟨bracket, rfl | rfl⟩ := exists_of_isBracket h <;> cases bracket <;> rfl

/-- The letter in front of the quotes of a string is inert. -/
theorem IsLetter.isInert {letter : List Char} (h : IsLetter letter) :
    ∀ c ∈ letter, isInert c = true := by
  rcases h with rfl | ⟨c, hc, rfl⟩
  · exact List.forall_mem_nil _
  · exact List.forall_mem_singleton.2 (isInert_of_class rfl hc)

namespace Brackets

/-- The token of a bracket opens and closes what its character does. -/
theorem kind_of_take? (hc : isBracket c = true)
    (htake : brackets.take? [c] = some (kind, brackets')) (other : Bracket) :
    [c].count other.openingChar = [kind].count other.opening ∧
      [c].count other.closingChar = [kind].count other.closing := by
  obtain ⟨bracket, rfl | rfl⟩ := exists_of_isBracket hc
  · obtain rfl : bracket.opening = kind := by
      cases bracket <;> exact congrArg Prod.fst (Option.some.inj htake)
    cases bracket <;> cases other <;> exact ⟨rfl, rfl⟩
  · obtain rfl : bracket.closing = kind := by
      cases bracket <;>
        exact congrArg Prod.fst (Option.some.inj (Option.ite_none_left_eq_some.1 htake).2)
    cases bracket <;> cases other <;> exact ⟨rfl, rfl⟩

/-- A bracket is refused if it closes nothing. -/
theorem take?_eq_none_iff (hc : isBracket c = true) :
    brackets.take? [c] = none ↔
      ∃ bracket : Bracket, c = bracket.closingChar ∧ brackets.depth bracket = 0 := by
  constructor
  · intro hnone
    obtain ⟨bracket, rfl | rfl⟩ := exists_of_isBracket hc
    · cases bracket <;> cases hnone
    · refine ⟨bracket, rfl, ?_⟩
      by_contra hne
      cases bracket <;> cases (if_neg hne).symm.trans hnone
  · rintro ⟨bracket, rfl, hdepth⟩
    cases bracket <;> exact if_pos hdepth

end Brackets

/-- A bracket counts for its own kind. -/
theorem CountsTo.bracket (h : CountsTo chars brackets) (hc : isBracket c = true)
    (htake : brackets.take? [c] = some (kind, brackets')) : CountsTo (chars ++ [c]) brackets' := by
  intro bracket
  obtain ⟨hopening, hclosing⟩ := Brackets.kind_of_take? hc htake bracket
  have hdepth := (Brackets.turns_of_take? htake).depth_eq bracket
  have hcount := h bracket
  rw [List.count_append, List.count_append, hopening, hclosing]
  omega

/-! ## What is seen so far -/

/-- A character stands at the end of some others, or in front of the last of them. -/
theorem snoc_eq_append_cons (h : chars ++ [c] = front ++ d :: back) :
    (chars = front ∧ c = d) ∨ ∃ back', chars = front ++ d :: back' := by
  rcases List.eq_nil_or_concat back with rfl | ⟨back', last, rfl⟩
  · obtain ⟨hchars, hc⟩ := List.append_inj' h rfl
    exact .inl ⟨hchars, (List.cons.inj hc).1⟩
  · rw [List.concat_eq_append, ← List.cons_append, ← List.append_assoc] at h
    exact .inr ⟨back', (List.append_inj' h rfl).1⟩

theorem goesOn_nil : GoesOn [] := by
  intro front back h
  simp at h

theorem isOpened_nil : IsOpened [] := by
  intro front back bracket h
  simp at h

theorem GoesOn.snoc (h : GoesOn chars) (hc : c = '\n' → ¬ IsEven chars) :
    GoesOn (chars ++ [c]) := by
  intro front back hsplit
  rcases snoc_eq_append_cons hsplit with ⟨rfl, hfeed⟩ | ⟨back', hback⟩
  · exact hc hfeed
  · exact h front back' hback

theorem IsOpened.snoc (h : IsOpened chars)
    (hc : ∀ bracket : Bracket, c = bracket.closingChar →
      chars.count bracket.closingChar < chars.count bracket.openingChar) :
    IsOpened (chars ++ [c]) := by
  intro front back bracket hsplit
  rcases snoc_eq_append_cons hsplit with ⟨rfl, hclosing⟩ | ⟨back', hback⟩
  · exact hc bracket hclosing
  · exact h front back' bracket hback

/-- What one inert character keeps is kept by a word of them. -/
theorem append_of_snoc {p : List Char → Prop}
    (hsnoc : ∀ {chars c}, p chars → isInert c = true → p (chars ++ [c])) (h : p chars)
    (hword : ∀ c ∈ word, isInert c = true) : p (chars ++ word) := by
  induction word generalizing chars with
  | nil => rwa [List.append_nil]
  | cons c word ih =>
    obtain ⟨hc, hword⟩ := List.forall_mem_cons.1 hword
    rw [← List.singleton_append, ← List.append_assoc]
    exact ih (hsnoc h hc) hword

theorem GoesOn.append (h : GoesOn chars) (hword : ∀ c ∈ word, isInert c = true) :
    GoesOn (chars ++ word) :=
  append_of_snoc (fun h hc => h.snoc fun hfeed => absurd hfeed (ne_of_isInert hc (by decide)))
    h hword

theorem IsOpened.append (h : IsOpened chars) (hword : ∀ c ∈ word, isInert c = true) :
    IsOpened (chars ++ word) :=
  append_of_snoc (fun h hc => h.snoc fun bracket hclosing =>
    absurd hclosing (ne_of_isInert hc bracket.mem_marks.2)) h hword

end Counting

/-! ## Steps in an expression -/

namespace Scan

variable {table : LineTable} {s t u : Scan} {brackets : Brackets} {outer : List Activation}
  {piece : Piece} {piece? : Option Piece} {rule : Rule} {m : Match} {cs left : List Char}

/-- An expression is open with these brackets, and perhaps a string in it. -/
inductive InExpression (brackets : Brackets) (outer : List Activation) (s : Scan) : Prop
  | bare (hmodes : s.modes = .expression brackets :: outer)
  | string {style : QuoteStyle} {raw : Bool} {line column : Nat}
      (hmodes : s.modes = .string style raw line column :: .expression brackets :: outer)

/-- What an expression sees from the place of a scan on. -/
def ahead (s : Scan) : List (Char × List Char) :=
  match s.modes with
  | .string style _ _ _ :: _ => visibleBehind style s.rest
  | _ => visible s.rest

theorem ahead_of_expression (hmodes : s.modes = .expression brackets :: outer) :
    s.ahead = visible s.rest := by
  rw [ahead, hmodes]

theorem ahead_of_string {style : QuoteStyle} {raw : Bool} {line column : Nat}
    (hmodes : s.modes = .string style raw line column :: outer) :
    s.ahead = visibleBehind style s.rest := by
  rw [ahead, hmodes]

/-- What a step in an expression reads of it. -/
inductive Crosses (brackets : Brackets) (outer : List Activation) (s t : Scan) : Prop
  | inert {seen : List (Char × List Char)} (hseen : ∀ spot ∈ seen, isInert spot.1 = true)
      (hahead : s.ahead = seen ++ t.ahead) (ht : t.InExpression brackets outer) :
      Crosses brackets outer s t
  | bracket {c : Char} {kind : Kind} {brackets' : Brackets} (hc : isBracket c = true)
      (htake : brackets.take? [c] = some (kind, brackets'))
      (hahead : s.ahead = (c, t.rest) :: t.ahead) (ht : t.modes = .expression brackets' :: outer) :
      Crosses brackets outer s t
  | lineFeed (hahead : s.ahead = ('\n', t.rest) :: visible t.rest)
      (ht : t.modes = if brackets.isBalanced then outer else .expression brackets :: outer) :
      Crosses brackets outer s t

/-- At the end of the text an expression is not complete. -/
theorem finish_of_inExpression (h : s.InExpression brackets outer) (table : LineTable) :
    ∃ fault, s.finish table = .error fault := by
  rw [finish]
  rcases h with hmodes | hmodes
  · rw [hmodes]
    dsimp only
    split <;> exact ⟨_, rfl⟩
  · rw [hmodes]
    exact ⟨_, rfl⟩

/-- A step in an expression selects a rule that acts. -/
theorem InExpression.exists_of_step (h : s.InExpression brackets outer) (piece? : Option Piece)
    (hstep : s.step table = (t, piece?.map Except.ok)) :
    ∃ rule m a, s.mode.select s.rest = some (rule, m) ∧ s.rest = m.lexeme ++ t.rest ∧
      (s.report (.ruleMatched rule s.mode s.position.line s.position.column)).act table rule m =
        (a, .ok piece?) ∧ t.modes = a.modes := by
  rcases Scan.exists_of_step piece? hstep with ⟨-, -, hfinish⟩ | ⟨rule, m, a, left, hselect, hrest,
    hact, hmodes, rfl, -⟩
  · obtain ⟨fault, hfault⟩ := finish_of_inExpression h table
    rw [hfault] at hfinish
    cases piece? <;> simp at hfinish
  · exact ⟨rule, m, a, hselect, hrest, hact, hmodes⟩

/-- A step in a string takes a part of it or closes it. -/
theorem crosses_of_step_in_string {style : QuoteStyle} {raw : Bool} {line column : Nat}
    (hmodes : s.modes = .string style raw line column :: .expression brackets :: outer)
    (hstep : s.step table = (t, piece?.map Except.ok)) : Crosses brackets outer s t := by
  have hinside : s.InExpression brackets outer := .string hmodes
  obtain ⟨rule, m, a, hselect, hrest, hact, htmodes⟩ := hinside.exists_of_step piece? hstep
  have part {piece : Piece} (hstep : s.step table = (t, some (.ok piece)))
      (hpart : piece.kind.IsPart) (hsame : t.modes = s.modes) : Crosses brackets outer s t := by
    obtain ⟨taken, htaken, hisPart⟩ := isPartOf_of_step hmodes hstep hpart
    have ht := hsame.trans hmodes
    refine .inert (List.forall_mem_nil _) ?_ (.string ht)
    rw [ahead_of_string hmodes, ahead_of_string ht, htaken, hisPart.visibleBehind_eq]
    rfl
  have hmem := mem_rules_of_select hselect
  rw [mode_eq_string hmodes] at hmem
  rcases mem_rules_string hmem with rfl | rfl | rfl | ⟨rfl, -⟩
  · cases accepts_of_act hact
    exact part hstep (isPart_escaped m (s.report _)) htmodes
  · cases hact
    have ht : t.modes = .expression brackets :: outer := htmodes.trans (congrArg List.tail hmodes)
    have hquotes : m.lexeme = style.quotes :=
      Match.lexeme_eq_of_word (Mode.match?_of_select hselect)
    refine .inert (List.forall_mem_nil _) ?_ (.bare ht)
    rw [ahead_of_string hmodes, ahead_of_expression ht, hrest, hquotes, visibleBehind_quotes]
    rfl
  · cases hact
    exact part hstep trivial htmodes
  · cases hact
    exact part hstep trivial htmodes

/-- A comment is blanks, a semicolon and what is left of the line. -/
theorem exists_of_comment (h : Rule.comment.match? (m.lexeme ++ left) = some m) :
    ∃ blanks behind, (∀ c ∈ blanks, isInert c = true) ∧
      m.lexeme ++ left = blanks ++ ';' :: behind ∧ left = behind.dropWhile (· ≠ '\n') := by
  obtain ⟨left', hcut, hleft⟩ := Match.exists_append_of_ofPattern isCut_comment h
  obtain rfl := List.append_cancel_left hleft
  obtain ⟨blanks, _, _, hgap, hremark, -⟩ := exists_of_seq_eq_some hcut
  obtain ⟨_, _, behind, hsign, hmore, -⟩ := exists_of_seq_eq_some hremark
  obtain ⟨c, hc, -, rfl⟩ := exists_of_one_eq_some hsign
  obtain rfl := of_decide_eq_true hc
  refine ⟨blanks, behind, takesInert_many rfl _ _ _ hgap, isCut_many _ _ _ _ hgap, ?_⟩
  exact (Prod.mk.inj (Option.some.inj hmore)).2.symm

/-- A step outside of strings passes over inert characters and what is hidden, or it takes a
bracket or the end of a line. -/
theorem crosses_of_step_outside (hmodes : s.modes = .expression brackets :: outer)
    (hstep : s.step table = (t, piece?.map Except.ok)) : Crosses brackets outer s t := by
  have hinside : s.InExpression brackets outer := .bare hmodes
  obtain ⟨rule, m, a, hselect, hrest, hact, htmodes⟩ := hinside.exists_of_step piece? hstep
  have hmatch := Mode.match?_of_select hselect
  have hmem := mem_rules_of_select hselect
  have hmode : s.mode = .expression := by rw [mode, hmodes]; rfl
  rw [hmode] at hmem hselect
  rw [hrest] at hmatch
  -- Most steps leave the modes as they are.
  have still (hsame : t.modes = s.modes) {seen : List (Char × List Char)}
      (hseen : ∀ spot ∈ seen, isInert spot.1 = true)
      (hvisible : visible s.rest = seen ++ visible t.rest) : Crosses brackets outer s t := by
    have ht := hsame.trans hmodes
    refine .inert hseen ?_ (.bare ht)
    rw [ahead_of_expression hmodes, ahead_of_expression ht, hvisible]
  by_cases hinert : rule ∈ Rule.inert
  · obtain ⟨rfl, -⟩ := inert_of_act hinert hact
    obtain ⟨seen, hseen, hinert⟩ :=
      visible_of_inert (Rule.isInert_of_mem_lexeme hinert hmatch) t.rest
    exact still htmodes hinert (hrest ▸ hseen)
  cases rule with
  | comment =>
    cases hact
    obtain ⟨blanks, behind, hblanks, hfront, hbehind⟩ := exists_of_comment hmatch
    obtain ⟨seen, hseen, hinert⟩ := visible_of_inert hblanks (';' :: behind)
    refine still htmodes hinert ?_
    rw [hrest, hfront, hseen, visible_comment, hbehind]
  | continuation =>
    cases hact
    have hlexeme : m.lexeme = ['\\', '\n'] := Match.lexeme_eq_of_word hmatch
    refine still htmodes (List.forall_mem_nil _) ?_
    rw [hrest, hlexeme]
    exact visible_continuation t.rest
  | openString style =>
    obtain ⟨letter, hletter, rfl⟩ := exists_letter_of_match? hmatch
    cases hact
    rw [List.append_assoc] at hrest
    have hsingle := not_prefix_of_select hletter (hrest ▸ hselect)
    obtain ⟨seen, hseen, hinert⟩ := visible_of_inert hletter.isInert (style.quotes ++ t.rest)
    have ht := htmodes.trans (congrArg (List.cons _) hmodes)
    refine .inert hinert ?_ (.string ht)
    rw [ahead_of_expression hmodes, ahead_of_string ht, hrest, hseen, visible_quotes hsingle]
  | bracket =>
    obtain ⟨c, left, hc, hlexeme, -⟩ := Match.exists_of_one hmatch
    have hvisible : visible s.rest = (c, t.rest) :: visible t.rest := by
      rw [hrest, hlexeme]
      exact visible_of_not_hides (hides_of_isBracket hc) t.rest
    cases accepts_of_act hact with
    | bracket hopen htake =>
    obtain ⟨hsame, rfl⟩ := List.cons.inj (hopen.symm.trans hmodes)
    cases hsame
    rw [hlexeme] at htake
    refine .bracket hc htake ?_ htmodes
    rw [ahead_of_expression hmodes, ahead_of_expression htmodes, hvisible]
  | expressionNewline =>
    obtain ⟨c, left, hc, hlexeme, -⟩ := Match.exists_of_one hmatch
    obtain rfl := of_decide_eq_true hc
    have hvisible : visible s.rest = ('\n', t.rest) :: visible t.rest := by
      rw [hrest, hlexeme]
      exact visible_of_not_hides rfl t.rest
    refine .lineFeed ((ahead_of_expression hmodes).trans hvisible) ?_
    cases accepts_of_act hact with
    | lastNewline hopen hbalanced =>
      obtain ⟨hsame, -⟩ := List.cons.inj (hopen.symm.trans hmodes)
      cases hsame
      rw [if_pos hbalanced, htmodes]
      exact congrArg List.tail hmodes
    | expressionNewline hopen =>
      rw [if_neg (by simp [hopen brackets outer hmodes]), htmodes]
      exact hmodes
  | _ => first | exact absurd (by decide) hinert | simp [Mode.rules] at hmem

/-- A step in an expression passes over what does not matter, or it takes a bracket or the end of
a line. -/
theorem crosses_of_step (piece? : Option Piece) (h : s.InExpression brackets outer)
    (hstep : s.step table = (t, piece?.map Except.ok)) : Crosses brackets outer s t := by
  rcases h with hmodes | hmodes
  · exact crosses_of_step_outside hmodes hstep
  · exact crosses_of_step_in_string hmodes hstep

/-! ## Pieces of an expression -/

theorem InExpression.mode_eq (h : s.InExpression brackets outer) :
    s.mode = .expression ∨ ∃ style, s.mode = .string style := by
  cases h with
  | bare hmodes => exact .inl (by rw [mode, hmodes]; rfl)
  | string hmodes => exact .inr ⟨_, mode_eq_string hmodes⟩

theorem InExpression.mode_ne_block (h : s.InExpression brackets outer) : s.mode ≠ .block := by
  rcases h.mode_eq with hmode | ⟨style, hmode⟩ <;> simp [hmode]

/-- What a step in an expression yields belongs to it. -/
theorem isInExpression_of_step (hs : s.isDone = false) (h : s.InExpression brackets outer)
    (hstep : s.step table = (t, some (.ok piece))) : piece.kind.IsInExpression := by
  obtain ⟨rule, m, a, hselect, -⟩ := h.exists_of_step (some piece) hstep
  have hmode : ¬ (s.mode = .default ∨ s.mode = .block) := by
    rcases h.mode_eq with hmode | ⟨style, hmode⟩ <;> simp [hmode]
  cases effect_of_rest (some piece) hs (Mode.ne_nil_of_select hselect) hstep with
  | still hquiet => exact PieceKind.isInExpression_of_isQuiet (hquiet piece rfl)
  | membersBegin _ hkind | expressionCloses hkind =>
    rw [hkind]
    exact .inr rfl
  | named _ _ hother | blockOpens _ _ _ hother => exact absurd hother hmode
  | expressionOpens _ _ hother => exact absurd (.inr hother) hmode
  | blockCloses _ _ hmodes =>
    exact absurd (.inr (by rw [mode, hmodes]; rfl)) hmode
  | bodyCloses _ hmodes =>
    rcases h with hother | hother <;> cases hmodes.symm.trans hother
  | term hkind hterm =>
    rw [hkind]
    exact .inl hterm.isInExpression
  | bracketTurns hkind hturns =>
    rw [hkind]
    exact .inl (.inl hturns.category)
  | stringOpens hkind | stringCloses hkind =>
    rw [hkind]
    trivial

end Scan

end BlockLexer
