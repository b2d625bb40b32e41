import BlockLexer.Proofs.BodyBounds
import BlockLexer.Proofs.Commented
import BlockLexer.Proofs.LineEnds
import BlockLexer.Proofs.SkippedImports

/-!
# The names of bodies

The scan finds a marker wherever it is in a block, but the names behind the marker are read from
its line as a whole.  This module says what comes of it: the names are kept if nothing but blanks
stands in front of the marker on its line, and are lost otherwise.

* `namesIn` are the names in a text, and `Text.namesIn_append_spaces`: white space at its end
  counts for nothing.
* `Line.bodyNames_of_blank_front` and `Line.bodyNames_of_filled_front` are the names that are read
  from a line with a marker.
* `Scan.LeavesMarkers`: a line that begins with a dash has no second marker.
* `Lexer.names_of_bodies` is every body that a lexer yields.
-/

namespace BlockLexer

open Text Pattern Lexeme

/-! ## Names -/

/-- The names in a text: what stands between commas, trimmed, if anything is left. -/
def namesIn (cs : List Char) : List (List Char) :=
  ((splitBy ',' cs).map trim).filter (!·.isEmpty)

namespace Text

variable {cs spaces : List Char}

theorem takeWhile_congr {p q : Char → Bool} (h : ∀ c ∈ cs, p c = q c) :
    cs.takeWhile p = cs.takeWhile q := by
  induction cs with
  | nil => rfl
  | cons c cs ih =>
    obtain ⟨hc, hcs⟩ := List.forall_mem_cons.1 h
    rw [List.takeWhile_cons, List.takeWhile_cons, hc, ih hcs]

theorem trim_append_spaces (hspaces : ∀ c ∈ spaces, isSpace c = true) (cs : List Char) :
    trim (cs ++ spaces) = trim cs := by
  have htrim (cs : List Char) : trimEnd (cs ++ spaces) = trimEnd cs := by
    rw [trimEnd, List.reverse_append, List.dropWhile_append_of_pos
      (fun c hc => hspaces c (List.mem_reverse.1 hc)), trimEnd]
  unfold trim trimStart
  rw [List.dropWhile_append]
  split
  · next hnil =>
    rw [List.isEmpty_iff.1 hnil, List.dropWhile_eq_nil_iff.2 hspaces]
  · exact htrim _

/-- What follows a text belongs to its last piece, if it holds no separator. -/
theorem exists_splitBy_append {sep : Char} (hsep : sep ∉ spaces) (cs : List Char) :
    ∃ init last, splitBy sep cs = init ++ [last] ∧
      splitBy sep (cs ++ spaces) = init ++ [last ++ spaces] := by
  induction cs with
  | nil =>
    refine ⟨[], [], rfl, ?_⟩
    show splitBy sep spaces = [spaces]
    induction spaces with
    | nil => rfl
    | cons c spaces ih =>
      rw [List.mem_cons, not_or] at hsep
      rw [splitBy_cons, if_neg (Ne.symm hsep.1), ih hsep.2]
      rfl
  | cons c cs ih =>
    obtain ⟨init, last, hcs, happend⟩ := ih
    rw [List.cons_append, splitBy_cons, splitBy_cons, hcs, happend]
    by_cases hc : c = sep
    · rw [if_pos hc, if_pos hc]
      exact ⟨[] :: init, last, rfl, rfl⟩
    · rw [if_neg hc, if_neg hc]
      cases init with
      | nil => exact ⟨[], c :: last, rfl, rfl⟩
      | cons first init => exact ⟨(c :: first) :: init, last, rfl, rfl⟩

/-- White space at the end of a text makes no difference to its names. -/
theorem namesIn_append_spaces (hspaces : ∀ c ∈ spaces, isSpace c = true) (cs : List Char) :
    namesIn (cs ++ spaces) = namesIn cs := by
  have hcomma : ',' ∉ spaces := fun hmem => by cases hspaces _ hmem
  obtain ⟨init, last, hcs, happend⟩ := exists_splitBy_append hcomma cs
  unfold namesIn
  rw [hcs, happend, List.map_append, List.map_append, List.map_singleton, List.map_singleton,
    trim_append_spaces hspaces]

end Text

/-- The names behind a marker are those in its content, as it stands in the text. -/
theorem bodyNames_trimEnd (cs : List Char) :
    bodyNames (trimEnd ('-' :: '-' :: '-' :: cs)) = namesIn cs := by
  obtain ⟨spaces, hcs, hspaces⟩ := exists_spaces cs
  rw [trimEnd_cons rfl, trimEnd_cons rfl, trimEnd_cons rfl]
  conv_rhs => rw [hcs, namesIn_append_spaces hspaces]
  rfl

/-! ## Lines that are read to their end -/

namespace Scan

variable {table : LineTable} {tabWidth : Nat} {text passed line more : List Char} {s t u : Scan}
  {pieces : List Piece} {rule : Rule} {m : Match}

theorem takeWhile_line (hline : '\n' ∉ line) (more : List Char) :
    (line ++ '\n' :: more).takeWhile (· ≠ '\n') = line := by
  rw [(takeWhile_append_stop (by simp) line more).1, List.takeWhile_eq_self_iff]
  intro c hc
  simpa using ne_of_mem_of_not_mem hc hline

/-- The characters of the line of a place in front of the end of a line. -/
theorem StandsIn.exists_line_chars (h : StandsIn text s) (htext : text = passed ++ s.rest)
    (hrest : s.rest = line ++ '\n' :: more) (hline : '\n' ∉ line) (tabWidth : Nat) :
    ∃ found, (LineTable.ofText tabWidth text).get? s.position.line = some found ∧
      found.chars = lineFront passed ++ line := by
  obtain ⟨found, hfound, hchars, -⟩ := h.exists_line_at htext (by simp [hrest]) tabWidth
  rw [hrest, takeWhile_line hline] at hchars
  exact ⟨found, hfound, hchars⟩

end Scan

/-! ## Markers and their lines -/

section Lines

variable {found : Line} {front line tail : List Char}

/-- Behind nothing but blanks, the names of a marker are those that follow it on its line. -/
theorem Line.bodyNames_of_blank_front (hchars : found.chars = front ++ '-' :: '-' :: '-' :: tail)
    (hfront : ∀ c ∈ front, Text.isBlank c = true) :
    bodyNames found.content = namesIn (tail.takeWhile (· ≠ ';')) := by
  have hdrop : found.chars.dropWhile Text.isBlank = '-' :: '-' :: '-' :: tail := by
    rw [hchars, List.dropWhile_append_of_pos hfront]
    rfl
  have htake : ('-' :: '-' :: '-' :: tail).takeWhile (· ≠ ';') =
      '-' :: '-' :: '-' :: tail.takeWhile (· ≠ ';') := rfl
  rw [content, hdrop, htake, bodyNames_trimEnd]

/-- Behind anything else that is no dash, they are not found. -/
theorem Line.bodyNames_of_filled_front {c : Char} {more : List Char}
    (hchars : found.chars = front ++ line) (hfront : front.dropWhile Text.isBlank = c :: more)
    (hc : c ≠ '-') : bodyNames found.content = [] := by
  have hdrop : found.chars.dropWhile Text.isBlank = c :: (more ++ line) := by
    rw [hchars, List.dropWhile_append, hfront]
    rfl
  obtain ⟨spaces, hspaces, -⟩ := exists_spaces ((c :: (more ++ line)).takeWhile (· ≠ ';'))
  have hcontent : found.content <+: c :: (more ++ line) := by
    rw [content, hdrop]
    exact (List.prefix_append _ spaces).trans (hspaces ▸ List.takeWhile_prefix _)
  have hmarker : bodyMarker.isPrefixOf found.content = false := by
    cases hfound : found.content with
    | nil => rfl
    | cons d content =>
      rw [hfound] at hcontent
      obtain ⟨rfl, -⟩ := List.cons_prefix_cons.1 hcontent
      have hne : ('-' == d) = false := beq_eq_false_iff_ne.2 hc.symm
      rw [bodyMarker, List.isPrefixOf_cons_cons, hne, Bool.false_and]
  rw [bodyNames, hmarker]
  rfl

end Lines

/-! ## Lines that begin with a dash -/

/-- A gap begins with no dash. -/
theorem Rule.IsGap.head?_ne_dash {rule : Rule} {cs : List Char} {m : Match} (h : rule.IsGap)
    (hmatch : rule.match? cs = some m) : (m.lexeme.dropWhile isBlank).head? ≠ some '-' := by
  rcases h with rfl | rfl | rfl
  · obtain ⟨left, hcut, -⟩ := Match.exists_append_of_ofPattern isCut_comment hmatch
    obtain ⟨blanks, remark, between, hgap, hremark, hlexeme⟩ := exists_of_seq_eq_some hcut
    obtain ⟨sign, more, behind, hsign, -, rfl⟩ := exists_of_seq_eq_some hremark
    obtain ⟨rfl, rfl⟩ := Prod.mk.inj (Option.some.inj hgap)
    obtain ⟨c, hc, rfl, -⟩ := exists_of_one_eq_some hsign
    rw [hlexeme, List.dropWhile_append_of_pos fun c hc => List.mem_takeWhile_imp hc,
      of_decide_eq_true hc]
    intro hdash
    cases hdash
  · obtain ⟨left, hcut, -⟩ := Match.exists_append_of_ofPattern (isCut_many1 _) hmatch
    obtain ⟨-, hpair⟩ := Option.ite_none_left_eq_some.1 hcut
    rw [← (Prod.mk.inj (Option.some.inj hpair)).1,
      List.dropWhile_eq_nil_iff.2 fun c hc => List.mem_takeWhile_imp hc]
    intro hdash
    cases hdash
  · rw [Rule.EndsLine.lexeme_eq (.inr (.inl rfl)) hmatch]
    intro hdash
    cases hdash

namespace Scan

variable {table : LineTable} {tabWidth : Nat} {text passed line more : List Char} {s t u a : Scan}
  {pieces : List Piece} {rule : Rule} {m : Match} {piece? : Option Piece}

/-- Of the rules of an expression only that of the end of a line takes something off the modes. -/
theorem eq_expressionNewline_of_act (hrule : rule ∈ Mode.expression.rules)
    (h : s.act table rule m = (a, .ok piece?)) (hmodes : a.modes.length < s.modes.length) :
    rule = .expressionNewline := by
  by_contra hfeed
  by_cases hstring : ∃ style, rule = .openString style
  · obtain ⟨style, rfl⟩ := hstring
    cases h
    exact absurd hmodes (Nat.not_lt_of_le (Nat.le_succ _))
  · obtain ⟨hsame, -⟩ := still_of_act hrule h (fun style he => hstring ⟨style, he⟩) hfeed
    exact absurd hsame (Nat.ne_of_lt hmodes)

/-- If a line begins with a dash, the dash is that of a marker, and the marker leaves a comment or
nothing of the line. -/
def LeavesMarkers (text : List Char) (s : Scan) : Prop :=
  ∀ passed, text = passed ++ s.rest → s.mode = .default ∨ s.mode = .block →
    ((lineFront passed).dropWhile isBlank).head? = some '-' →
      IsIdle (s.rest.takeWhile (· ≠ '\n'))

/-- What is left behind a match that takes no line feed is a part of its line. -/
theorem IsGap.isIdle_left {left : List Char} (hgap : rule.IsGap) (hline : '\n' ∉ line)
    (hmatch : rule.match? (line ++ '\n' :: more) = some m) (hleft : line = m.lexeme ++ left)
    (hidle : IsIdle line) : IsIdle left := by
  have hsplit : line ++ '\n' :: more = m.lexeme ++ (left ++ '\n' :: more) := by
    rw [← List.append_assoc, ← hleft]
  rcases hgap.cases_of_match? hline hmatch hsplit with hmore | ⟨left', hsame, -, hidle'⟩
  · have hlength := congrArg List.length hmore
    rw [List.length_append, List.length_cons] at hlength
    omega
  · rw [List.append_cancel_right_eq] at hsame
    exact hsame ▸ hidle' hidle

/-- What a marker leaves of its line is a comment or nothing. -/
theorem isIdle_left_of_bodyMarker {left : List Char} (hline : '\n' ∉ line)
    (hmatch : Rule.match? .bodyMarker (line ++ '\n' :: more) = some m)
    (hleft : line = m.lexeme ++ left) : IsIdle left := by
  obtain ⟨behind, hrest, hlexeme⟩ := Rule.exists_of_bodyMarker hmatch
  have hsame : m.lexeme ++ (left ++ '\n' :: more) =
      m.lexeme ++ behind.dropWhile (fun c => c ≠ '\n' && c ≠ ';') := by
    rw [← List.append_assoc, ← hleft, hrest, hlexeme]
    simp only [List.cons_append, List.takeWhile_append_dropWhile]
  have hdrop := List.append_cancel_left hsame
  cases left with
  | nil => exact isIdle_nil
  | cons c left =>
    have hstop := stops_dropWhile (fun c => c ≠ '\n' && c ≠ ';') behind
    rw [← hdrop] at hstop
    have hfeed : c ≠ '\n' := by
      rintro rfl
      exact hline (hleft ▸ List.mem_append_right _ List.mem_cons_self)
    have hremark : c = ';' := by simpa [hfeed] using hstop c rfl
    intro d hd
    rw [hremark, List.dropWhile_cons_of_neg (by decide)] at hd
    exact .inl (Option.some.inj hd).symm

/-- A step of an expression, a body or a string comes to a block only at the end of a line. -/
theorem mode_or_lineFeed_of_step (hway : OnWay table text s) (he : Effect table s t piece?)
    (hselect : s.mode.select s.rest = some (rule, m))
    (hact : (s.report (.ruleMatched rule s.mode s.position.line s.position.column)).act table rule m =
      (a, .ok piece?))
    (hmodes : t.modes = a.modes) (hmode : t.mode = .default ∨ t.mode = .block) :
    (s.mode = .default ∨ s.mode = .block) ∨ (¬ rule.RunsOn ∧ '\n' ∈ m.lexeme) := by
  have inside {activation : Activation} {outer : List Activation}
      (hsame : t.modes = activation :: outer)
      (hother : activation.mode = .expression ∨ ∃ style, activation.mode = .string style) : False := by
    rw [mode, hsame] at hmode
    change activation.mode = _ ∨ activation.mode = _ at hmode
    rcases hother with hother | ⟨style, hother⟩
    all_goals rcases hmode with hmode | hmode <;> cases hother.symm.trans hmode
  have runs {rule : Rule} (hrule : rule = .expressionNewline ∨ rule = .bodyLine) : ¬ rule.RunsOn := by
    rintro ⟨style, rfl, -⟩
    rcases hrule with hrule | hrule <;> cases hrule
  cases he with
  | still _ hsame | membersBegin _ _ hsame =>
    rw [mode, hsame] at hmode
    exact .inl hmode
  | named _ _ hmode | blockOpens _ _ _ hmode => exact .inl hmode
  | blockCloses _ _ hsame =>
    refine .inl (.inr ?_)
    rw [mode, hsame]
    rfl
  | expressionOpens _ _ hmode | bodyOpens hmode => exact .inl (.inr hmode)
  | expressionCloses _ _ hsame =>
    right
    have hmem := mem_rules_of_select hselect
    rw [mode, hsame] at hmem
    have hshort : a.modes.length < s.modes.length := by
      rw [← hmodes, hsame]
      exact Nat.lt_succ_self _
    obtain rfl := eq_expressionNewline_of_act hmem hact hshort
    rw [Rule.EndsLine.lexeme_eq (.inr (.inr rfl)) (Mode.match?_of_select hselect)]
    exact ⟨runs (.inl rfl), List.mem_singleton_self _⟩
  | term _ _ hopen hsame => exact (inside (hsame.trans hopen) (.inl rfl)).elim
  | bracketTurns _ _ _ hsame => exact (inside hsame (.inl rfl)).elim
  | stringOpens _ _ hsame => exact (inside hsame (.inr ⟨_, rfl⟩)).elim
  | bodyCloses _ hsame =>
    right
    have hmem := mem_rules_of_select hselect
    rw [mode, hsame] at hmem
    obtain rfl : rule = .bodyLine := List.mem_singleton.1 hmem
    exact ⟨runs (.inr rfl), Rule.lineFeed_mem_of_bodyLine (Mode.match?_of_select hselect)⟩
  | stringCloses _ hsame =>
    obtain ⟨brackets, -, houter⟩ := (hsame ▸ hway.stacked).of_string
    exact (inside houter (.inl rfl)).elim

/-- In a block and between blocks a match takes the end of its line, or leaves some of the line.
Then the line is left to a comment if it begins with a dash. -/
theorem LeavesMarkers.of_select {left : List Char} (hmode : s.mode = .default ∨ s.mode = .block)
    (hrest : s.rest = line ++ '\n' :: more) (hline : '\n' ∉ line)
    (hselect : s.mode.select s.rest = some (rule, m)) (hrule : rule ∈ Mode.block.rules)
    (hleft : line = m.lexeme ++ left) (htext : text = passed ++ s.rest)
    (hdash : ((lineFront (passed ++ m.lexeme)).dropWhile isBlank).head? = some '-')
    (h : LeavesMarkers text s) : IsIdle left := by
  have hmatch := Mode.match?_of_select hselect
  have hlexeme : '\n' ∉ m.lexeme := fun hfeed => hline (hleft ▸ List.mem_append_left _ hfeed)
  rw [lineFront_append hlexeme, List.dropWhile_append] at hdash
  split at hdash
  · -- The line begins with what is matched, which must be a marker.
    rcases Rule.exists_first_of_match? hrule hmatch with hgap | ⟨c, behind, hfirst, hc⟩
    · exact absurd hdash (hgap.head?_ne_dash hmatch)
    · obtain ⟨between, hbetween⟩ := List.head?_eq_some_iff.1 hdash
      have hdrop : s.rest.dropWhile isBlank = '-' :: (between ++ (left ++ '\n' :: more)) := by
        rw [hrest, hleft, List.append_assoc, List.dropWhile_append, hbetween]
        rfl
      obtain ⟨rfl, -⟩ := List.cons.inj (hfirst.symm.trans hdrop)
      rcases hc with hname | ⟨-, rfl⟩
      · cases hname
      · exact isIdle_left_of_bodyMarker hline (hrest ▸ hmatch) hleft
  · -- The line began with a dash before.
    next hfilled =>
    have hbefore : ((lineFront passed).dropWhile isBlank).head? = some '-' := by
      rwa [List.head?_append_of_ne_nil _ (by simpa using hfilled)] at hdash
    have hidle := h passed htext hmode hbefore
    rw [hrest, takeWhile_line hline] at hidle
    have hgap : rule.IsGap := by
      have hrestIdle : IsIdle s.rest := hrest ▸ hidle.of_append_lineFeed
      exact hrestIdle.rule_of_match? hrule hmatch
    exact IsGap.isIdle_left hgap hline (hrest ▸ hmatch) hleft hidle

/-- Between blocks the rules are those of a block, but for the end of a line. -/
theorem mem_block_rules_of_act (hmode : s.mode = .default ∨ s.mode = .block)
    (hselect : s.mode.select s.rest = some (rule, m))
    (hact : (s.report (.ruleMatched rule s.mode s.position.line s.position.column)).act table rule m =
      (a, .ok piece?))
    (hfeed : '\n' ∉ m.lexeme) : rule ∈ Mode.block.rules := by
  have hmem := mem_rules_of_select hselect
  rcases hmode with hmode | hmode
  · rw [hmode] at hmem
    simp only [Mode.rules, List.mem_cons, List.not_mem_nil, or_false] at hmem
    rcases hmem with rfl | rfl | rfl | rfl | rfl | rfl
    · simp [Mode.rules]
    · simp [Mode.rules]
    · simp [Mode.rules]
    · have hlexeme := Rule.EndsLine.lexeme_eq (.inl rfl) (Mode.match?_of_select hselect)
      rw [hlexeme] at hfeed
      exact absurd (List.mem_singleton_self _) hfeed
    · cases hact
    · simp [Mode.rules]
  · rwa [hmode] at hmem

/-- A step leaves markers. -/
theorem LeavesMarkers.step (piece? : Option Piece)
    (hclosed : text = [] ∨ text.getLast? = some '\n') (hway : OnWay table text s) (hs : s.isDone = false)
    (hstep : s.step table = (t, piece?.map Except.ok)) (h : LeavesMarkers text s) :
    LeavesMarkers text t := by
  intro passed' htext' hmode hdash
  rcases exists_of_step piece? hstep with ⟨hnil, rfl, -⟩ | ⟨rule, m, a, left, hselect, hsplit, hact,
    hmodes, rfl, -⟩
  · exact h passed' htext' hmode hdash
  have hne : s.rest ≠ [] := Mode.ne_nil_of_select hselect
  obtain ⟨passed, htext, -⟩ := hway.stands
  obtain ⟨line, more, hrest, hline⟩ := List.eq_append_cons_of_mem
    (List.mem_of_getLast? ((hway.stands.closed_rest hclosed).resolve_left hne))
  obtain rfl : passed' = passed ++ m.lexeme := by
    rw [htext, hsplit, ← List.append_assoc] at htext'
    exact (List.append_cancel_right htext').symm
  -- Behind the end of a line nothing of the next one is passed.
  have stays (hruns : ¬ rule.RunsOn) : ∃ left, line = m.lexeme ++ left := by
    rcases Mode.lexeme_of_select hline (hrest ▸ hselect) (fun hrule => absurd hrule hruns) with
      hleft | hwhole
    · exact hleft
    · rw [hwhole, ← List.append_assoc, lineFront_append_lineFeed] at hdash
      cases hdash
  rcases mode_or_lineFeed_of_step hway (effect_of_rest piece? hs hne hstep) hselect hact hmodes hmode
    with hsmode | ⟨hruns, hfeed⟩
  · have hmem := mem_rules_of_select hselect
    have hruns : ¬ rule.RunsOn := by
      rintro ⟨style, rfl, -⟩
      rcases hsmode with hsmode | hsmode <;> rw [hsmode] at hmem <;> simp [Mode.rules] at hmem
    obtain ⟨left, hleft⟩ := stays hruns
    have hrule : rule ∈ Mode.block.rules := mem_block_rules_of_act hsmode hselect hact
      fun hfeed => hline (hleft ▸ List.mem_append_left _ hfeed)
    have hsame : t.rest = left ++ '\n' :: more := by
      rw [hrest, hleft, List.append_assoc] at hsplit
      exact (List.append_cancel_left hsplit).symm
    rw [hsame, takeWhile_line fun hfeed => hline (hleft ▸ List.mem_append_right _ hfeed)]
    exact of_select hsmode hrest hline hselect hrule hleft htext hdash h
  · obtain ⟨left, hleft⟩ := stays hruns
    exact absurd (hleft ▸ List.mem_append_left left hfeed) hline

/-- A run leaves markers. -/
theorem LeavesMarkers.run (hclosed : text = [] ∨ text.getLast? = some '\n')
    (hnumbered : table.Numbered) (hrun : Run table s pieces t) (hway : OnWay table text s)
    (h : LeavesMarkers text s) : LeavesMarkers text t := by
  induction hrun with
  | refl s => exact h
  | quiet hs hstep _ ih =>
    exact ih (hway.step none hnumbered hs hstep) (h.step none hclosed hway hs hstep)
  | @piece s t t' u piece pieces hs hstep hsettles _ ih =>
    refine ih ((hway.step (some piece) hnumbered hs hstep).settles hsettles) ?_
    intro passed htext hmode
    rw [hsettles.rest_eq] at htext ⊢
    rw [mode, hsettles.same.1] at hmode
    exact h.step (some piece) hclosed hway hs hstep passed htext hmode

theorem leavesMarkers_of_start (hrest : s.rest = text) : LeavesMarkers text s := by
  intro passed htext _ hdash
  rw [hrest] at htext
  obtain rfl : passed = [] := by simpa using htext
  cases hdash

/-! ## Bodies with their markers -/

/-- A scan that opens a body and goes on to yield it: `o` is the scan in front of the marker, which
is reached from `s`, and `m` the match that takes the marker. -/
structure Opens (table : LineTable) (s o : Scan) (m : Match) (piece : Piece) : Prop where
  reached : ∃ before, Run table s before o
  select : o.mode.select o.rest = some (.bodyMarker, m)
  yields : ∃ v w t body, o.step table = (v, none) ∧ v.modes = .body body :: o.modes ∧
    Run table v [] w ∧ w.step table = (t, some (.ok piece))

/-- The names that are read from the line of a marker in a block. -/
theorem bodyNames_of_select {found : Line} (hclosed : text = [] ∨ text.getLast? = some '\n')
    (hstands : StandsIn text s) (hleaves : LeavesMarkers text s) (hmode : s.mode = .block)
    (hselect : s.mode.select s.rest = some (.bodyMarker, m))
    (hfound : (LineTable.ofText tabWidth text).get? s.position.line = some found) :
    ∃ passed, text = passed ++ s.rest ∧ s.position = ({} : Position).after passed ∧
      bodyNames found.content =
        if (lineFront passed).all isBlank then namesIn (m.lexeme.drop 3) else [] := by
  obtain ⟨passed, htext, hposition⟩ := hstands
  obtain ⟨behind, hdashes, hlexeme⟩ := Rule.exists_of_bodyMarker (Mode.match?_of_select hselect)
  obtain ⟨line, more, hrest, hline⟩ := List.eq_append_cons_of_mem (List.mem_of_getLast?
    ((StandsIn.closed_rest ⟨passed, htext, hposition⟩ hclosed).resolve_left
      (Mode.ne_nil_of_select hselect)))
  obtain ⟨tail, rfl⟩ : ∃ tail, line = '-' :: '-' :: '-' :: tail := by
    have hsame := takeWhile_line hline more
    rw [← hrest, hdashes] at hsame
    exact ⟨_, hsame.symm⟩
  obtain rfl : behind = tail ++ '\n' :: more := by
    simpa using hdashes.symm.trans hrest
  have htail : '\n' ∉ tail := fun hfeed => hline (by simp [hfeed])
  obtain ⟨found', hfound', hchars⟩ :=
    StandsIn.exists_line_chars ⟨passed, htext, hposition⟩ htext hrest hline tabWidth
  obtain rfl : found' = found := Option.some.inj (hfound'.symm.trans hfound)
  refine ⟨passed, htext, hposition, ?_⟩
  by_cases hblank : (lineFront passed).all isBlank = true
  · have hsame : (tail ++ '\n' :: more).takeWhile (fun c => c ≠ '\n' && c ≠ ';') =
        tail.takeWhile (· ≠ ';') := by
      rw [(takeWhile_append_stop (by simp) tail more).1]
      refine takeWhile_congr fun c hc => ?_
      rw [decide_eq_true (ne_of_mem_of_not_mem hc htail), Bool.true_and]
    rw [if_pos hblank, Line.bodyNames_of_blank_front hchars (List.all_eq_true.1 hblank), hlexeme,
      hsame]
    rfl
  · rw [if_neg hblank]
    cases hfirst : (lineFront passed).dropWhile isBlank with
    | nil => exact absurd (List.all_eq_true.2 (List.dropWhile_eq_nil_iff.1 hfirst)) hblank
    | cons c more' =>
      refine Line.bodyNames_of_filled_front hchars hfirst ?_
      -- A line that begins with a dash has no second marker.
      rintro rfl
      have hidle := hleaves passed htext (.inr hmode) (congrArg List.head? hfirst)
      rw [hrest, takeWhile_line hline] at hidle
      rcases hidle '-' rfl with hremark | hspace
      · cases hremark
      · cases hspace

/-- The names that a body is yielded with are those behind its marker, if nothing but blanks stands
in front of the marker on its line, and none otherwise. -/
theorem exists_opens_of_piece (hclosed : text = [] ∨ text.getLast? = some '\n') {piece : Piece}
    (hrun : Run (.ofText tabWidth text) s pieces u) (hrest : s.rest = text)
    (hposition : s.position = {}) (hmodes : s.modes = []) (hblocks : s.blocks = [])
    (hpiece : piece ∈ pieces) (hkind : piece.kind = .token .body) :
    ∃ o m passed body, Opens (.ofText tabWidth text) s o m piece ∧ text = passed ++ o.rest ∧
      o.position = ({} : Position).after passed ∧ piece.value = .body body ∧
      body.names = if (lineFront passed).all isBlank then namesIn (m.lexeme.drop 3) else [] := by
  have hnumbered := LineTable.numbered_ofText tabWidth text
  have hway : OnWay (.ofText tabWidth text) text s :=
    onWay_of_start _ hrest hposition hmodes hblocks
  obtain ⟨before, w, t, hbefore, hw, hyields⟩ := hrun.exists_of_mem hpiece
  -- The body was open, so a marker has opened it.
  rcases effect_of_step hw hyields with ⟨-, hend, -⟩ | ⟨-, he, -⟩
  · cases hend.symm.trans hkind
  obtain ⟨opened, htop⟩ := he.closes_body hkind
  rcases hbefore.exists_opening hnumbered hway htop with ⟨hopen, -⟩ |
    ⟨first, o, v, hfirst, ho, hstep, hmode, hopen, -, hlater⟩
  · cases hmodes.symm.trans hopen
  obtain ⟨marker, hmarker, rfl, -, m, hselect⟩ := exists_marker_of_step hstep hmode hopen
  obtain ⟨passed, htext, hpassed, hnames⟩ := bodyNames_of_select hclosed
    (hway.run hnumbered hfirst).stands
    ((leavesMarkers_of_start hrest).run hclosed hnumbered hfirst hway) hmode hselect hmarker
  obtain ⟨-, ⟨-, hnone, -⟩ | ⟨closed, hclose, -, hsome⟩⟩ := step_in_body (some piece) htop hyields
  · cases hnone
  obtain rfl := Option.some.inj hsome
  obtain ⟨ahead, last, -, -, -, rfl⟩ := OpenBody.exists_of_step hclose
  exact ⟨o, m, passed, _, ⟨⟨first, hfirst⟩, hselect, v, w, t, _, hstep, hopen, hlater, hyields⟩, htext,
    hpassed, rfl, hnames⟩

end Scan

/-- In every row of tokens that a lexer yields, the names of a body are those that its marker has
behind the three dashes, if nothing but blanks stands in front of the marker on its line.
Otherwise the body has no names. -/
theorem Lexer.names_of_bodies {tree : Files.FileTree} {config : Config} {text : List Char}
    {origin : Files.Path} {source : Source} {lexer : Lexer} {tokens : List Token} {token : Token}
    (hsource : (Source.ofText tree config text origin).outcome = .ok source)
    (hyields : stage.Yields (ofSource source) tokens lexer) (htoken : token ∈ tokens)
    (hkind : token.kind = .body) :
    ∃ piece o m passed body, piece.kind = .token .body ∧ piece.value = token.value ∧
      piece.span = token.span ∧ Scan.Opens source.table (ofSource source).scan o m piece ∧
      source.text = passed ++ o.rest ∧ o.position = ({} : Position).after passed ∧
      token.value = .body body ∧
      body.names = if (lineFront passed).all isBlank then namesIn (m.lexeme.drop 3) else [] := by
  obtain ⟨pieces, hrun, hdelivered, -⟩ := run_of_yields hyields
  obtain ⟨piece, hpiece, hstands⟩ := hdelivered.exists_piece htoken
  have htable := Source.table_of_ofText hsource
  rw [htable] at hrun
  cases hstands with
  | string _ hstring => cases hkind.symm.trans hstring
  | token hpieceKind hvalue hspan =>
    have hbody : piece.kind = .token .body := hpieceKind.trans (by rw [hkind])
    obtain ⟨o, m, passed, body, hopens, htext, hposition, hbodyValue, hnames⟩ :=
      Scan.exists_opens_of_piece (Source.closed_of_ofText hsource) hrun rfl rfl rfl rfl hpiece hbody
    exact ⟨piece, o, m, passed, body, hbody, hvalue.symm, hspan.symm, htable ▸ hopens, htext,
      hposition, hvalue.trans hbodyValue, hnames⟩

/-- A marker on a line of its own, with two names. -/
theorem Lexer.names_of_body_on_own_line :
    ∃ source tokens lexer token piece o m passed body,
      (Source.ofText ⟨[], []⟩ {} "A\n ---rtl, notes\n  a\nend\n".toList textOrigin).outcome = .ok source ∧
      stage.Yields (ofSource source) tokens lexer ∧ token ∈ tokens ∧ token.kind = .body ∧
      Scan.Opens source.table (ofSource source).scan o m piece ∧ piece.value = token.value ∧
      source.text = passed ++ o.rest ∧ token.value = .body body ∧
      body.names = [['r', 't', 'l'], ['n', 'o', 't', 'e', 's']] ∧
      body.names = if (lineFront passed).all isBlank then namesIn (m.lexeme.drop 3) else [] := by
  have hvalues : (tokenize ⟨[], []⟩ {} "A\n ---rtl, notes\n  a\nend\n".toList textOrigin).map
      (List.map fun token => (token.kind, token.value)) =
        .ok [(.className, .text ['A']),
          (.body, .body { startLine := 3, text := ['a'],
                          names := [['r', 't', 'l'], ['n', 'o', 't', 'e', 's']] }),
          (.blockEnd, .nothing), (.endOfText, .nothing)] := by
    decide +kernel
  obtain ⟨tokens, htokenize, hvalues⟩ := exists_of_map_eq_ok hvalues
  obtain ⟨source, hsource, htokens⟩ := exists_of_bind_eq_ok htokenize
  obtain ⟨lexer, -, hyields, -⟩ := Stage.yields_of_collect htokens
  obtain ⟨token, htoken, hpair⟩ := List.mem_map.1 (hvalues ▸ List.mem_cons_of_mem _ List.mem_cons_self)
  obtain ⟨hkind, hvalue⟩ := Prod.mk.inj hpair
  obtain ⟨piece, o, m, passed, body, -, hpiece, -, hopens, htext, -, hbody, hnames⟩ :=
    names_of_bodies hsource hyields htoken hkind
  obtain rfl := Value.body.inj (hvalue.symm.trans hbody)
  exact ⟨source, tokens, lexer, token, piece, o, m, passed, _, hsource, hyields, htoken, hkind, hopens,
    hpiece, htext, hbody, rfl, hnames⟩

/-- Behind a header the names of a marker are lost. -/
theorem Lexer.names_lost_behind_header :
    ∃ source tokens token piece o m body,
      (Source.ofText ⟨[], []⟩ {} "Foo ---rtl, notes\n  a\nend\n".toList textOrigin).outcome = .ok source ∧
      Lexer.tokens source = .ok tokens ∧ token ∈ tokens ∧ token.kind = .body ∧
      Scan.Opens source.table (ofSource source).scan o m piece ∧ piece.kind = .token .body ∧
      piece.value = token.value ∧ piece.span = token.span ∧ token.value = .body body ∧
      body.names = [] ∧ namesIn (m.lexeme.drop 3) = [['r', 't', 'l'], ['n', 'o', 't', 'e', 's']] := by
  let body : BodyText := { startLine := 2, text := ['a'], names := [] }
  let token : Token := { kind := .body, value := .body body, span := ⟨18, 21, 2, 1⟩ }
  let piece : Piece := { kind := .token .body, value := .body body, span := ⟨18, 21, 2, 1⟩ }
  have hbodies : (tokenize ⟨[], []⟩ {} "Foo ---rtl, notes\n  a\nend\n".toList textOrigin).map
      (List.filter fun token => token.kind = .body) = .ok [token] := by
    decide +kernel
  -- The scan is in front of the marker after two steps, and yields the body after three more.
  have hwalk : (Source.ofText ⟨[], []⟩ {} "Foo ---rtl, notes\n  a\nend\n".toList textOrigin).outcome.map
      (fun source => (Scan.walk source.table 2 (ofSource source).scan).map fun o =>
        decide (((o.mode.select o.rest).map fun selected =>
            (selected.1, namesIn (selected.2.lexeme.drop 3))) =
              some (.bodyMarker, [['r', 't', 'l'], ['n', 'o', 't', 'e', 's']]) ∧
          ((o.step source.table).2 = none ∧ ((o.step source.table).1.step source.table).2 = none ∧
            (((o.step source.table).1.step source.table).1.step source.table).2 = some (.ok piece)) ∧
          (o.step source.table).1.isDone = false ∧
          (o.step source.table).1.modes.head?.map Activation.mode = some .body ∧
          (o.step source.table).1.modes.tail = o.modes)) = .ok (some true) := by
    decide +kernel
  obtain ⟨tokens, htokenize, hfilter⟩ := exists_of_map_eq_ok hbodies
  obtain ⟨source, hsource, htokens⟩ := exists_of_bind_eq_ok htokenize
  obtain ⟨source', hsource', hstate⟩ := exists_of_map_eq_ok hwalk
  obtain rfl := Except.ok.inj (hsource'.symm.trans hsource)
  obtain ⟨o, ho, hstate⟩ := Option.map_eq_some_iff.1 hstate
  obtain ⟨hselect, ⟨hopen, hquiet, hyields⟩, hgoes, hhead, htail⟩ := of_decide_eq_true hstate
  obtain ⟨⟨rule, m⟩, hselect, hmatch⟩ := Option.map_eq_some_iff.1 hselect
  obtain ⟨rfl, hnames⟩ := Prod.mk.inj hmatch
  obtain ⟨before, hrun⟩ := Scan.exists_run_of_walk ho
  obtain ⟨activation, hactivation, hmode⟩ := Option.map_eq_some_iff.1 hhead
  obtain ⟨opened, rfl⟩ : ∃ opened, activation = .body opened := by
    cases activation with
    | body opened => exact ⟨opened, rfl⟩
    | block | expression | string => cases hmode
  have hmodes : (o.step source'.table).1.modes = .body opened :: o.modes := by
    rw [List.eq_cons_of_mem_head? hactivation, htail]
  have hmem : token ∈ tokens :=
    List.mem_of_mem_filter (p := fun token => token.kind = .body)
      (hfilter ▸ List.mem_singleton.2 rfl)
  have hopens : Scan.Opens source'.table (ofSource source').scan o m piece :=
    ⟨⟨before, hrun⟩, hselect, _, _, _, opened, Prod.ext rfl hopen, hmodes,
      .quiet hgoes (Prod.ext rfl hquiet) (.refl _), Prod.ext rfl hyields⟩
  exact ⟨source', tokens, token, piece, o, m, body, hsource, htokens, hmem, rfl, hopens, rfl, rfl, rfl, rfl,
    rfl, hnames⟩

end BlockLexer
