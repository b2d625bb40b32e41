import BlockLexer.Proofs.Effect
import BlockLexer.Proofs.Indented
import BlockLexer.Proofs.Newlines

/-!
# Where a scan stands

A scan reads its text from the beginning, and no rule takes anything else than what comes
next.  This module says at which line of the text a scan is, and what stands there.

* `Rule.exists_append_of_match?`: what a rule takes is a beginning of the text.
* `Scan.exists_of_step` is what a step without a fault does: a rule is selected, it acts,
  and the scan moves behind the match.
* `Scan.StandsIn`: what a scan has passed and what it has left make up the text, and the
  place is the place behind what it has passed.  `Scan.standsIn_of_run` keeps it.
* `Scan.StandsIn.exists_directive`: an import that the scan finds at the beginning of a
  line, and that takes the line up to its end, is a directive of the text.
-/

namespace BlockLexer

open Text Pattern

/-! ## What a rule takes -/

namespace Lexeme

theorem isCut_comment : IsCut comment :=
  (isCut_many _).seq ((isCut_one _).seq (isCut_many _))

theorem isCut_name : IsCut name :=
  (isCut_one _).seq (isCut_many _)

theorem isCut_endWord : IsCut endWord :=
  (isCut_wordCaseless _).seq (isCut_notBefore _)

theorem isCut_assignment : IsCut assignment :=
  (isCut_many _).seq ((isCut_one _).seq (isCut_many _))

theorem isCut_directive : IsCut directive :=
  (isCut_many _).seq <| (isCut_wordCaseless _).seq <| (isCut_many1 _).seq <|
    (isCut_many1 _).seq <| (isCut_many _).seq ((isCut_one _).seq (isCut_many _)).optional

theorem append_moreDigits (cs : List Char) : (moreDigits cs).1 ++ (moreDigits cs).2 = cs := by
  fun_induction moreDigits cs <;> simp_all

theorem isCut_digits : IsCut digits := by
  refine (isCut_one _).seq fun cs x rest h => ?_
  have hcut : moreDigits cs = (x, rest) := Option.some.inj h
  have happend := append_moreDigits cs
  rw [hcut] at happend
  exact happend.symm

theorem isCut_exponent : IsCut exponent :=
  (isCut_one _).seq ((isCut_one _).optional.seq isCut_digits)

theorem isCut_float : IsCut float :=
  (((isCut_digits.seq ((isCut_one _).seq isCut_digits.optional)).orElse
    ((isCut_one _).seq isCut_digits)).seq isCut_exponent.optional).orElse
      (isCut_digits.seq isCut_exponent)

theorem isCut_imaginary : IsCut imaginary :=
  (isCut_digits.seq (isCut_one _)).orElse (isCut_float.seq (isCut_one _))

theorem isCut_radixNumeral (letter : Char) (isDigit : Char → Bool) :
    IsCut (radixNumeral letter isDigit) :=
  (isCut_one _).seq ((isCut_one _).seq (isCut_many1 _))

end Lexeme

section Matches

variable {cs : List Char} {m : Match}

theorem Match.exists_append_of_ofPattern {a : Pattern} (ha : IsCut a)
    (h : ofPattern a cs = some m) :
    ∃ left, a cs = some (m.lexeme, left) ∧ cs = m.lexeme ++ left := by
  obtain ⟨⟨x, left⟩, hcut, rfl⟩ := Option.map_eq_some_iff.1 h
  exact ⟨left, hcut, ha _ _ _ hcut⟩

/-- The pattern of a word takes the word. -/
theorem Match.lexeme_eq_of_word {w : List Char} (h : ofPattern (word w) cs = some m) :
    m.lexeme = w := by
  obtain ⟨left, hcut, -⟩ := exists_append_of_ofPattern (isCut_word w) h
  obtain ⟨hsame, hcut⟩ := Option.ite_none_right_eq_some.1 hcut
  exact (Prod.mk.inj (Option.some.inj hcut)).1.symm.trans hsame

/-- The pattern of a class takes one character, which is of the class. -/
theorem Match.exists_of_one {p : Char → Bool} (h : ofPattern (one p) cs = some m) :
    ∃ c left, p c = true ∧ m.lexeme = [c] ∧ cs = c :: left := by
  obtain ⟨left, hcut, -⟩ := exists_append_of_ofPattern (isCut_one p) h
  obtain ⟨c, hc, hlexeme, hcs⟩ := exists_of_one_eq_some hcut
  exact ⟨c, left, hc, hlexeme, hcs⟩

/-- A match that sets a part apart is three matches in a row. -/
theorem Match.exists_of_ofGroup {a b c : Pattern} (h : ofGroup a b c cs = some m) :
    ∃ x y z cs' cs'' left, a cs = some (x, cs') ∧ b cs' = some (y, cs'') ∧
      c cs'' = some (z, left) ∧ m = { lexeme := x ++ y ++ z, group := some (x, y) } := by
  unfold ofGroup at h
  split at h
  · cases h
  next x cs' hx =>
  split at h
  · cases h
  next y cs'' hy =>
  split at h
  · cases h
  next z left hz =>
  exact ⟨x, y, z, cs', cs'', left, hx, hy, hz, (Option.some.inj h).symm⟩

theorem Match.exists_append_of_ofGroup {a b c : Pattern} (ha : IsCut a) (hb : IsCut b)
    (hc : IsCut c) (h : ofGroup a b c cs = some m) : ∃ left, cs = m.lexeme ++ left := by
  obtain ⟨x, y, z, cs', cs'', left, hx, hy, hz, rfl⟩ := exists_of_ofGroup h
  refine ⟨left, ?_⟩
  rw [ha _ _ _ hx, hb _ _ _ hy, hc _ _ _ hz, List.append_assoc, List.append_assoc]

/-- What a rule takes is a beginning of the text. -/
theorem Rule.exists_append_of_match? {rule : Rule} (h : rule.match? cs = some m) :
    ∃ left, cs = m.lexeme ++ left := by
  have pattern {a : Pattern} (ha : IsCut a) (h : Match.ofPattern a cs = some m) :
      ∃ left, cs = m.lexeme ++ left :=
    (Match.exists_append_of_ofPattern ha h).imp fun _ hleft => hleft.2
  cases rule with
  | directive => exact pattern Lexeme.isCut_directive h
  | comment => exact pattern Lexeme.isCut_comment h
  | blanks | stringText => exact pattern (isCut_many1 _) h
  | newline | headerNewline | expressionNewline | bracket | operator | loneQuote =>
    exact pattern (isCut_one _) h
  | strayEnd => exact pattern Lexeme.isCut_endWord h
  | className => exact pattern ((isCut_one _).seq (isCut_many _)) h
  | blockEnd =>
    exact Match.exists_append_of_ofGroup Lexeme.isCut_endWord (isCut_many _) isCut_nothing h
  | attributeName =>
    exact Match.exists_append_of_ofGroup isCut_nothing Lexeme.isCut_name Lexeme.isCut_assignment h
  | bodyMarker => exact pattern ((isCut_word _).seq (isCut_many _)) h
  | instanceName | identifier => exact pattern Lexeme.isCut_name h
  | continuation | closeString => exact pattern (isCut_word _) h
  | openString =>
    exact Match.exists_append_of_ofGroup isCut_nothing (isCut_one _).optional (isCut_word _) h
  | imaginary => exact pattern Lexeme.isCut_imaginary h
  | float => exact pattern Lexeme.isCut_float h
  | hex | octal | binary => exact pattern (Lexeme.isCut_radixNumeral _ _) h
  | integer => exact pattern (isCut_many1 _) h
  | bodyLine => exact pattern ((isCut_many _).seq (isCut_one _)) h
  | escape => exact pattern ((isCut_one _).seq (isCut_one _)) h

/-- The rule that is selected matches. -/
theorem Mode.match?_of_select {mode : Mode} {rule : Rule}
    (h : mode.select cs = some (rule, m)) : rule.match? cs = some m := by
  obtain ⟨r, -, htake⟩ := List.exists_of_findSome?_eq_some h
  unfold Rule.take? at htake
  split at htake
  · cases htake
  next m' hmatch =>
  obtain ⟨rfl, rfl⟩ := Prod.mk.inj (Option.some.inj (Option.ite_none_left_eq_some.1 htake).2)
  exact hmatch

/-- Something is left where a rule is selected. -/
theorem Mode.ne_nil_of_select {mode : Mode} {rule : Rule} (h : mode.select cs = some (rule, m)) :
    cs ≠ [] := by
  rintro rfl
  obtain ⟨left, hleft⟩ := Rule.exists_append_of_match? (match?_of_select h)
  exact select_lexeme_ne_nil h (List.append_eq_nil_iff.1 hleft.symm).1

end Matches

/-! ## Steps -/

namespace Scan

variable {table : LineTable} {text : List Char} {s t u : Scan} {pieces : List Piece}

/-- The second scan stands behind a match of the first. -/
structure Moves (s t : Scan) (m : Match) : Prop where
  rest : t.rest = s.rest.drop m.lexeme.length
  position : t.position = s.position.after m.lexeme

/-- What a step comes to whose action is no fault. -/
theorem step_of_select {a : Scan} {rule : Rule} {m : Match} {piece? : Option Piece}
    (hselect : s.mode.select s.rest = some (rule, m))
    (hact : (s.report (.ruleMatched rule s.mode s.position.line s.position.column)).act table
      rule m = (a, .ok piece?)) :
    s.step table =
      (piece?.elim (a.advance m.lexeme) (a.advance m.lexeme).note, piece?.map Except.ok) := by
  unfold step
  split
  · next hnil => exact absurd hnil (Mode.ne_nil_of_select hselect)
  · rw [hselect]
    dsimp only
    rw [hact]
    cases piece? <;> rfl

/-- What a step comes to whose action refuses the match. -/
theorem step_of_select_error {a : Scan} {rule : Rule} {m : Match} {fault : Fault}
    (hselect : s.mode.select s.rest = some (rule, m))
    (hact : (s.report (.ruleMatched rule s.mode s.position.line s.position.column)).act table
      rule m = (a, .error fault)) :
    s.step table = ({ a.advance m.lexeme with isDone := true }, some (.error fault)) := by
  unfold step
  split
  · next hnil => exact absurd hnil (Mode.ne_nil_of_select hselect)
  · rw [hselect]
    simp only [hact]

/-- A step whose action is no fault moves behind the match. -/
theorem moves_of_act {a : Scan} {rule : Rule} {m : Match} {piece? : Option Piece}
    (hact : (s.report (.ruleMatched rule s.mode s.position.line s.position.column)).act table
      rule m = (a, .ok piece?)) :
    s.Moves (piece?.elim (a.advance m.lexeme) (a.advance m.lexeme).note) m := by
  have hplace := place_act table rule m
    (s.report (.ruleMatched rule s.mode s.position.line s.position.column))
  rw [hact] at hplace
  have hmoved : s.Moves (a.advance m.lexeme) m :=
    ⟨congrArg (fun place => place.1.drop m.lexeme.length) hplace,
      congrArg (fun place => place.2.1.after m.lexeme) hplace⟩
  cases piece? with
  | none => exact hmoved
  | some piece =>
    have hnote := place_note piece (a.advance m.lexeme)
    exact ⟨(congrArg (·.1) hnote).trans hmoved.rest, (congrArg (·.2.1) hnote).trans hmoved.position⟩

/-- A step without a fault comes to the end of the text, or selects a rule that acts, and
moves behind the match. -/
theorem exists_of_step (piece? : Option Piece) (h : s.step table = (t, piece?.map Except.ok)) :
    (s.rest = [] ∧ t = { s with isDone := true } ∧ piece?.map Except.ok = some (s.finish table)) ∨
      ∃ rule m a left, s.mode.select s.rest = some (rule, m) ∧ s.rest = m.lexeme ++ left ∧
        (s.report (.ruleMatched rule s.mode s.position.line s.position.column)).act table rule m =
          (a, .ok piece?) ∧
        t.modes = a.modes ∧ t.rest = left ∧ t.position = s.position.after m.lexeme := by
  rcases cases_of_step piece? h with hend | ⟨rule, m, a, hselect, hact, rfl⟩
  · exact .inl hend
  obtain ⟨left, hleft⟩ := Rule.exists_append_of_match? (Mode.match?_of_select hselect)
  have hmoves := moves_of_act hact
  have hmodes : (piece?.elim (a.advance m.lexeme) (a.advance m.lexeme).note).modes = a.modes := by
    cases piece? with
    | none => rfl
    | some piece => exact note_modes piece (a.advance m.lexeme)
  refine .inr ⟨rule, m, a, left, hselect, hleft, hact, hmodes, ?_, hmoves.position⟩
  rw [hmoves.rest, hleft, List.drop_left]

/-- The later stages do not move the scan. -/
theorem Settles.place_eq {piece : Piece} (h : Settles table piece s t) : t.place = s.place := by
  cases h <;> rfl

theorem Settles.rest_eq {piece : Piece} (h : Settles table piece s t) : t.rest = s.rest :=
  congrArg (·.1) h.place_eq

theorem Settles.position_eq {piece : Piece} (h : Settles table piece s t) :
    t.position = s.position :=
  congrArg (·.2.1) h.place_eq

/-! ## The place of a scan -/

/-- What a scan has passed and what it has left make up the text, and the scan is at the
place behind what it has passed. -/
def StandsIn (text : List Char) (s : Scan) : Prop :=
  ∃ passed, text = passed ++ s.rest ∧ s.position = ({} : Position).after passed

theorem StandsIn.of_place (h : StandsIn text s) (hplace : t.place = s.place) :
    StandsIn text t := by
  obtain ⟨passed, htext, hposition⟩ := h
  exact ⟨passed, htext.trans (congrArg (passed ++ ·.1) hplace.symm),
    (congrArg (·.2.1) hplace).trans hposition⟩

/-- A step stays in the text. -/
theorem standsIn_of_step (piece? : Option Piece) (h : StandsIn text s)
    (hstep : s.step table = (t, piece?.map Except.ok)) : StandsIn text t := by
  rcases exists_of_step piece? hstep with ⟨-, rfl, -⟩ | ⟨rule, m, a, left, -, hrest, -, -, hleft,
    hmoved⟩
  · exact h
  · obtain ⟨passed, htext, hposition⟩ := h
    refine ⟨passed ++ m.lexeme, ?_, ?_⟩
    · rw [htext, hrest, hleft, List.append_assoc]
    · rw [hmoved, hposition, Position.after_append]

theorem standsIn_of_run (hrun : Run table s pieces t) (h : StandsIn text s) :
    StandsIn text t := by
  induction hrun with
  | refl s => exact h
  | quiet hs hstep _ ih => exact ih (standsIn_of_step none h hstep)
  | @piece s t t' u piece pieces hs hstep hsettles _ ih =>
    exact ih ((standsIn_of_step (some piece) h hstep).of_place hsettles.place_eq)

/-- A step does not go back to a line before. -/
theorem line_le_of_step (piece? : Option Piece) (hstep : s.step table = (t, piece?.map Except.ok)) :
    s.position.line ≤ t.position.line := by
  rcases exists_of_step piece? hstep with ⟨-, rfl, -⟩ | ⟨rule, m, a, left, -, -, -, -, -, hmoved⟩
  · exact Nat.le_refl _
  · rw [hmoved, Position.line_after]
    exact Nat.le_add_right _ _

theorem line_le_of_run (hrun : Run table s pieces t) : s.position.line ≤ t.position.line := by
  induction hrun with
  | refl s => exact Nat.le_refl _
  | quiet hs hstep _ ih => exact Nat.le_trans (line_le_of_step none hstep) ih
  | @piece s t t' u piece pieces hs hstep hsettles _ ih =>
    rw [hsettles.position_eq] at ih
    exact Nat.le_trans (line_le_of_step (some piece) hstep) ih

/-- A scan begins at the beginning of its text. -/
theorem standsIn_of_start (hrest : s.rest = text) (hposition : s.position = {}) :
    StandsIn text s :=
  ⟨[], hrest.symm, hposition⟩

end Scan

/-! ## The beginning of a line -/

theorem Position.column_pos {p : Position} (h : 0 < p.column) (cs : List Char) :
    0 < (p.after cs).column := by
  induction cs generalizing p with
  | nil => exact h
  | cons c cs ih =>
    refine ih (p := p.next c) ?_
    unfold next
    split
    · exact Nat.one_pos
    · exact Nat.succ_pos _

/-- In the first column nothing has been passed, or a line feed last. -/
theorem Position.closed_of_column {passed : List Char}
    (h : (({} : Position).after passed).column = 1) :
    passed = [] ∨ passed.getLast? = some '\n' := by
  rcases List.eq_nil_or_concat passed with rfl | ⟨before, c, rfl⟩
  · exact .inl rfl
  · refine .inr ?_
    have hpos := Position.column_pos (p := {}) Nat.one_pos before
    rw [List.concat_eq_append, Position.after_append] at h
    change ((({} : Position).after before).next c).column = 1 at h
    rw [List.concat_eq_append, List.getLast?_concat]
    unfold next at h
    split at h
    · next hc => rw [hc]
    · dsimp only at h
      omega

namespace Text

/-- A text is made up of lines and a part of a line. -/
theorem exists_unlines_append (cs : List Char) :
    ∃ above front, cs = unlines above ++ front ∧ '\n' ∉ front ∧ ∀ line ∈ above, '\n' ∉ line := by
  by_cases hfeed : '\n' ∈ cs
  · obtain ⟨behind, before, hcs, hbehind⟩ := List.eq_append_cons_of_mem (List.mem_reverse.2 hfeed)
    refine ⟨splitLines (before.reverse ++ ['\n']), behind.reverse, ?_, by simpa using hbehind,
      fun line hline => lineFeed_not_mem_of_mem_splitLines hline⟩
    rw [unlines_splitLines_of_closed (.inr (by simp)), ← List.reverse_reverse cs, hcs]
    simp
  · exact ⟨[], cs, rfl, hfeed, fun _ hline => nomatch hline⟩

/-- The first line goes up to the first line feed, and what is behind it makes up the others. -/
theorem splitLines_eq_cons {cs : List Char} (hne : cs ≠ []) :
    splitLines cs = cs.takeWhile (· ≠ '\n') :: splitLines (cs.dropWhile (· ≠ '\n')).tail := by
  induction cs with
  | nil => exact absurd rfl hne
  | cons c cs ih =>
    by_cases hc : c = '\n'
    · simp [hc, consLine]
    · cases cs with
      | nil => simp [hc, consLine]
      | cons d cs =>
        rw [splitLines_cons, ih (List.cons_ne_nil _ _)]
        simp [hc, consLine]

theorem splitLines_unlines_append {lines : List (List Char)} (h : ∀ line ∈ lines, '\n' ∉ line)
    (rest : List Char) : splitLines (unlines lines ++ rest) = lines ++ splitLines rest := by
  induction lines with
  | nil => rfl
  | cons line lines ih =>
    obtain ⟨hline, hlines⟩ := List.forall_mem_cons.1 h
    rw [unlines_cons, List.append_assoc, List.cons_append, splitLines_append_lineFeed line _ hline,
      ih hlines, List.cons_append]

/-- There are as many line feeds as lines. -/
theorem count_unlines {lines : List (List Char)} (h : ∀ line ∈ lines, '\n' ∉ line) :
    (unlines lines).count '\n' = lines.length := by
  induction lines with
  | nil => rfl
  | cons line lines ih =>
    obtain ⟨hline, hlines⟩ := List.forall_mem_cons.1 h
    rw [unlines_cons, List.count_append, List.count_eq_zero.2 hline, List.count_cons_self,
      ih hlines, List.length_cons, Nat.zero_add]

end Text

/-- At the beginning of a line the lines from there on are left. -/
theorem Scan.StandsIn.splitLines_rest {text : List Char} {s : Scan} (h : StandsIn text s)
    (hcolumn : s.position.column = 1) :
    splitLines s.rest = (splitLines text).drop (s.position.line - 1) := by
  obtain ⟨passed, htext, hposition⟩ := h
  rw [hposition] at hcolumn
  have hpassed := unlines_splitLines_of_closed (Position.closed_of_column hcolumn)
  have hfree : ∀ line ∈ splitLines passed, '\n' ∉ line :=
    fun line hline => lineFeed_not_mem_of_mem_splitLines hline
  have hcount := count_unlines hfree
  have hline : s.position.line - 1 = (splitLines passed).length := by
    rw [hposition, Position.line_after, ← hcount, hpassed]
    exact Nat.add_sub_cancel_left 1 _
  rw [htext, ← hpassed, splitLines_unlines_append hfree, hline, List.drop_left]

/-! ## Directives at the beginning of a line -/

namespace Pattern

/-- A pattern finds the same in a text whether or not a character follows. -/
def StopsAt (c : Char) (a : Pattern) : Prop :=
  ∀ cs more, c ∉ cs → a (cs ++ c :: more) = (a cs).map fun cut => (cut.1, cut.2 ++ c :: more)

/-- A pattern finds the same in a line whether or not a line end follows. -/
def IsLocal (a : Pattern) : Prop :=
  ∀ line more, '\n' ∉ line →
    a (line ++ '\n' :: more) = (a line).map fun cut => (cut.1, cut.2 ++ '\n' :: more)

variable {a b : Pattern} {p : Char → Bool} {stop : Char}

theorem stopsAt_one (hp : p stop = false) : StopsAt stop (one p) := by
  intro cs more _
  cases cs with
  | nil => simp [one, hp]
  | cons c cs =>
    simp only [one, List.cons_append]
    split <;> rfl

theorem takeWhile_append_stop (hp : p stop = false) (cs more : List Char) :
    (cs ++ stop :: more).takeWhile p = cs.takeWhile p ∧
      (cs ++ stop :: more).dropWhile p = cs.dropWhile p ++ stop :: more := by
  induction cs with
  | nil => simp [hp]
  | cons c cs ih =>
    by_cases hc : p c = true
    · simp [hc, ih.1, ih.2]
    · simp [hc]

theorem stopsAt_many (hp : p stop = false) : StopsAt stop (many p) := by
  intro cs more _
  obtain ⟨htake, hdrop⟩ := takeWhile_append_stop hp cs more
  rw [many, htake, hdrop]
  rfl

theorem stopsAt_many1 (hp : p stop = false) : StopsAt stop (many1 p) := by
  intro cs more _
  obtain ⟨htake, hdrop⟩ := takeWhile_append_stop hp cs more
  rw [many1, many1, htake, hdrop]
  split <;> rfl

theorem stopsAt_wordCaseless {w : List Char} (hw : stop.toLower ∉ w.map Char.toLower) :
    StopsAt stop (wordCaseless w) := by
  intro cs more _
  unfold wordCaseless
  rcases Nat.lt_or_ge cs.length w.length with hlt | hge
  · have hshort : equalsCaseless (cs.take w.length) w = false := by
      unfold equalsCaseless
      rw [decide_eq_false_iff_not]
      intro hsame
      have hlength := congrArg List.length hsame
      simp only [List.length_map, List.length_take] at hlength
      omega
    have hlong : equalsCaseless ((cs ++ stop :: more).take w.length) w = false := by
      unfold equalsCaseless
      rw [decide_eq_false_iff_not]
      intro hsame
      refine hw (hsame ▸ List.mem_map.2 ⟨stop, ?_, rfl⟩)
      obtain ⟨n, hn⟩ : ∃ n, w.length - cs.length = n + 1 :=
        Nat.exists_eq_succ_of_ne_zero (by omega)
      rw [List.take_append, hn, List.take_succ_cons]
      exact List.mem_append_right _ List.mem_cons_self
    rw [if_neg (by simp [hlong]), if_neg (by simp [hshort])]
    rfl
  · rw [List.take_append_of_le_length hge, List.drop_append_of_le_length hge]
    split <;> rfl

theorem stopsAt_nothing : StopsAt stop nothing :=
  fun _ _ _ => rfl

theorem StopsAt.seq (ha : StopsAt stop a) (hcut : IsCut a) (hb : StopsAt stop b) :
    StopsAt stop (a.seq b) := by
  intro cs more hcs
  unfold Pattern.seq
  rw [ha cs more hcs]
  cases hx : a cs with
  | none => rfl
  | some cut =>
    obtain ⟨x, left⟩ := cut
    have hleft : stop ∉ left := by
      rw [hcut _ _ _ hx, List.mem_append, not_or] at hcs
      exact hcs.2
    simp only [Option.map_some, hb left more hleft]
    cases b left <;> rfl

theorem StopsAt.orElse (ha : StopsAt stop a) (hb : StopsAt stop b) : StopsAt stop (a.orElse b) := by
  intro cs more hcs
  unfold Pattern.orElse
  rw [ha cs more hcs, hb cs more hcs]
  cases a cs <;> rfl

theorem StopsAt.optional (ha : StopsAt stop a) : StopsAt stop a.optional :=
  ha.orElse stopsAt_nothing

end Pattern

namespace Lexeme

theorem isLocal_directive : IsLocal directive := by
  have hstops : StopsAt '\n' directive :=
    (stopsAt_many rfl).seq (isCut_many _) <|
      (stopsAt_wordCaseless (by decide)).seq (isCut_wordCaseless _) <|
        (stopsAt_many1 rfl).seq (isCut_many1 _) <|
          (stopsAt_many1 rfl).seq (isCut_many1 _) <|
            (stopsAt_many rfl).seq (isCut_many _)
              ((stopsAt_one rfl).seq (isCut_one _) (stopsAt_many rfl)).optional
  exact hstops

/-- A directive up to the end of its line is a directive without what follows, too. -/
theorem directive_of_lineEnd {lexeme more : List Char}
    (h : directive (lexeme ++ '\n' :: more) = some (lexeme, '\n' :: more)) :
    '\n' ∉ lexeme ∧ directive lexeme = some (lexeme, []) := by
  obtain ⟨line, rest, hsplit, hline⟩ :=
    List.eq_append_cons_of_mem (List.mem_append_right lexeme (List.mem_cons_self (a := '\n')))
  rw [hsplit, isLocal_directive line rest hline, Option.map_eq_some_iff] at h
  obtain ⟨⟨x, left⟩, hcut, hsame⟩ := h
  obtain ⟨rfl, hleft⟩ := Prod.mk.inj hsame
  have hjoin := isCut_directive _ _ _ hcut
  cases left with
  | nil =>
    rw [List.append_nil] at hjoin
    rw [hjoin] at hline hcut
    exact ⟨hline, hcut⟩
  | cons c left =>
    obtain rfl : c = '\n' := (List.cons.inj hleft).1
    exact absurd (hjoin ▸ List.mem_append_right x List.mem_cons_self) hline

end Lexeme

open Import in
/-- An import that a scan finds at the beginning of a line, and that takes the line up to
its end, is a directive of the text. -/
theorem Scan.StandsIn.exists_directive {text : List Char} {s : Scan} {m : Match}
    (h : StandsIn text s) (hselect : s.mode.select s.rest = some (.directive, m))
    (hcolumn : s.position.column = 1)
    (hend : (s.rest.drop m.lexeme.length).head? = some '\n') :
    (splitLines text)[s.position.line - 1]? = some m.lexeme ∧
      (Directive.ofLine? m.lexeme).isSome = true := by
  obtain ⟨left, hcut, hrest⟩ := Match.exists_append_of_ofPattern Lexeme.isCut_directive
    (Mode.match?_of_select hselect)
  rw [hrest, List.drop_left] at hend
  obtain ⟨more, rfl⟩ := List.head?_eq_some_iff.1 hend
  rw [hrest] at hcut
  obtain ⟨hline, hdirective⟩ := Lexeme.directive_of_lineEnd hcut
  refine ⟨?_, Directive.isSome_ofLine?_iff.2 ⟨_, hdirective⟩⟩
  have hlines := h.splitLines_rest hcolumn
  rw [hrest, splitLines_append_lineFeed _ _ hline] at hlines
  rw [← List.head?_drop, ← hlines]
  rfl

end BlockLexer
