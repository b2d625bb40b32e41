import BlockLexer.Proofs.Shifted
import BlockLexer.Proofs.Sight
import BlockLexer.Proofs.Way
import Mathlib.Data.List.DropRight

/-!
# What is still to come

A scan that comes to the end of its text finds nothing open there.  So whatever it has open
on its way is closed by a line that is still to come.

* `Scan.Run.modes_of_rest_nil`: at the end of the text nothing is open.
* `Scan.Run.exists_closing`: an open body is closed, and `Scan.Run.exists_filled`: a line of
  it that is not blank is still to come.
* `Scan.Run.exists_content`: in a block a line with content is left.
-/

namespace BlockLexer

open Text Pattern Lexeme

/-! ## Lines without content -/

/-- What stands behind the blanks is white space or a comment. -/
def IsIdle (cs : List Char) : Prop :=
  ∀ c ∈ (cs.dropWhile isBlank).head?, c = ';' ∨ isSpace c = true

theorem isIdle_nil : IsIdle [] := by
  simp [IsIdle]

/-- A line without content is idle. -/
theorem Line.isIdle_of_hasContent {line : Line} (h : line.hasContent = false) :
    IsIdle line.chars := by
  intro c hc
  by_contra hother
  rw [not_or, Bool.not_eq_true] at hother
  obtain ⟨hremark, hspace⟩ := hother
  obtain ⟨more, hmore⟩ := List.head?_eq_some_iff.1 hc
  rw [hasContent, content, hmore, List.takeWhile_cons_of_pos (by simpa using hremark),
    trimEnd_cons hspace] at h
  cases h

theorem IsIdle.of_append_lineFeed {line more : List Char} (h : IsIdle line) :
    IsIdle (line ++ '\n' :: more) := by
  intro c hc
  rw [(takeWhile_append_stop rfl line more).2] at hc
  cases hdrop : line.dropWhile isBlank with
  | nil =>
    rw [hdrop] at hc
    cases hc
    exact .inr rfl
  | cons d left =>
    rw [hdrop] at hc
    exact h c (by rw [hdrop]; exact hc)

theorem startsName_of_toLower {c : Char} (h : c.toLower.isAlpha = true) : startsName c = true := by
  rw [startsName, isAlpha_of_toLower h, Bool.or_true]

/-- The rules of a block that take the gaps between its members. -/
def Rule.IsGap (rule : Rule) : Prop :=
  rule = .comment ∨ rule = .blanks ∨ rule = .headerNewline

/-- Every other rule of a block begins, behind blanks, with a name, or is that of a marker and begins
with its dashes. -/
theorem Rule.exists_first_of_match? {cs : List Char} {rule : Rule} {m : Match}
    (hrule : rule ∈ Mode.block.rules) (hmatch : rule.match? cs = some m) :
    rule.IsGap ∨ ∃ c more, cs.dropWhile isBlank = c :: more ∧
      (startsName c = true ∨ (c = '-' ∧ rule = .bodyMarker)) := by
  have first {c : Char} {more : List Char} (hname : startsName c = true) (hcs : cs = c :: more) :
      ∃ c more, cs.dropWhile isBlank = c :: more ∧
        (startsName c = true ∨ (c = '-' ∧ rule = .bodyMarker)) := by
    refine ⟨c, more, ?_, .inl hname⟩
    rw [hcs, List.dropWhile_cons_of_neg (by simp [not_isBlank_of_startsName c hname])]
  have named {p : Char → Bool} {b : Pattern} {x left : List Char}
      (hp : ∀ c, p c = true → startsName c = true) (hcut : (one p).seq b cs = some (x, left)) :
      ∃ c more, cs.dropWhile isBlank = c :: more ∧
        (startsName c = true ∨ (c = '-' ∧ rule = .bodyMarker)) := by
    obtain ⟨_, _, _, hone, -⟩ := exists_of_seq_eq_some hcut
    obtain ⟨c, hc, -, rfl⟩ := exists_of_one_eq_some hone
    exact first (hp c hc) rfl
  cases rule with
  | comment => exact .inl (.inl rfl)
  | blanks => exact .inl (.inr (.inl rfl))
  | headerNewline => exact .inl (.inr (.inr rfl))
  | directive =>
    obtain ⟨left, hcut, -⟩ := Match.exists_append_of_ofPattern isCut_directive hmatch
    obtain ⟨c, more, hdrop, hc⟩ := exists_of_directive hcut
    exact .inr ⟨c, more, hdrop, .inl (startsName_of_toLower (by rw [hc]; rfl))⟩
  | blockEnd =>
    rw [Rule.match?] at hmatch
    obtain ⟨_, _, _, _, _, _, hend, -⟩ := Match.exists_of_ofGroup hmatch
    obtain ⟨_, _, _, hword, -⟩ := exists_of_seq_eq_some hend
    have hsame := (Option.ite_none_right_eq_some.1 hword).1
    cases cs with
    | nil => cases hsame
    | cons c more =>
      simp only [equalsCaseless, List.length_cons, List.take_succ_cons, List.map_cons,
        decide_eq_true_eq, List.cons.injEq] at hsame
      exact .inr (first (startsName_of_toLower (by rw [hsame.1]; rfl)) rfl)
  | attributeName =>
    rw [Rule.match?] at hmatch
    obtain ⟨_, _, _, _, _, _, hnothing, hname, -⟩ := Match.exists_of_ofGroup hmatch
    obtain ⟨-, rfl⟩ := Prod.mk.inj (Option.some.inj hnothing)
    exact .inr (named (fun _ => id) hname)
  | bodyMarker =>
    obtain ⟨left, hcut, -⟩ := Match.exists_append_of_ofPattern
      ((isCut_word _).seq (isCut_many _)) hmatch
    obtain ⟨_, _, _, hdashes, -⟩ := exists_of_seq_eq_some hcut
    have hsame := (Option.ite_none_right_eq_some.1 hdashes).1
    cases cs with
    | nil => cases hsame
    | cons c more =>
      obtain rfl : c = '-' := (List.cons.inj hsame).1
      exact .inr ⟨'-', more, rfl, .inr ⟨rfl, rfl⟩⟩
  | className =>
    obtain ⟨left, hcut, -⟩ := Match.exists_append_of_ofPattern
      ((isCut_one _).seq (isCut_many _)) hmatch
    exact .inr (named (fun _ => startsName_of_isUpper) hcut)
  | instanceName =>
    obtain ⟨left, hcut, -⟩ := Match.exists_append_of_ofPattern isCut_name hmatch
    exact .inr (named (fun _ => id) hcut)
  | newline | strayEnd | continuation | openString | imaginary | float | hex | octal | binary
  | integer | identifier | bracket | expressionNewline | operator | bodyLine | escape
  | closeString | stringText | loneQuote => simp [Mode.rules] at hrule

/-- Of the rules of a block only those of gaps match where the text is idle. -/
theorem IsIdle.rule_of_match? {cs : List Char} {rule : Rule} {m : Match} (h : IsIdle cs)
    (hrule : rule ∈ Mode.block.rules) (hmatch : rule.match? cs = some m) : rule.IsGap := by
  rcases Rule.exists_first_of_match? hrule hmatch with hgap | ⟨c, more, hdrop, hc⟩
  · exact hgap
  · have hidle := h c (by rw [hdrop]; rfl)
    rcases hc with hname | ⟨rfl, -⟩
    · rcases hidle with rfl | hspace
      · cases hname
      · rw [not_isSpace_of_continuesName (continuesName_of_startsName hname)] at hspace
        cases hspace
    · rcases hidle with hremark | hspace
      · cases hremark
      · cases hspace

/-- A text that is made up of idle lines. -/
def IdleText (cs : List Char) : Prop :=
  ∃ lines, cs = unlines lines ∧ ∀ line ∈ lines, '\n' ∉ line ∧ IsIdle line

/-- A comment takes its line. -/
theorem comment_eq_of_line {line x left : List Char} (hline : '\n' ∉ line)
    (h : comment line = some (x, left)) : left = [] := by
  obtain ⟨_, _, behind, hgap, hremark, -⟩ := exists_of_seq_eq_some h
  obtain ⟨_, _, more, hsign, hmany, -⟩ := exists_of_seq_eq_some hremark
  rw [isCut_many _ _ _ _ hgap, isCut_one _ _ _ _ hsign] at hline
  obtain ⟨-, rfl⟩ := Prod.mk.inj (Option.some.inj hmany)
  rw [List.dropWhile_eq_nil_iff]
  intro c hc
  have hne : c ≠ '\n' := by
    rintro rfl
    exact hline (List.mem_append_right _ (List.mem_append_right _ hc))
  simpa [inLine] using hne

/-- The rule of a gap takes the end of its line, or leaves a part of the line that is no less
idle. -/
theorem Rule.IsGap.cases_of_match? {line more left : List Char} {rule : Rule} {m : Match}
    (hrule : rule.IsGap) (hline : '\n' ∉ line)
    (hmatch : rule.match? (line ++ '\n' :: more) = some m)
    (hleft : line ++ '\n' :: more = m.lexeme ++ left) :
    left = more ∨ ∃ line', left = line' ++ '\n' :: more ∧ '\n' ∉ line' ∧ (IsIdle line → IsIdle line') := by
  rcases hrule with rfl | rfl | rfl
  · -- A comment leaves the end of its line.
    obtain ⟨left', hcut, hsame⟩ := Match.exists_append_of_ofPattern isCut_comment hmatch
    obtain rfl := List.append_cancel_left (hsame.symm.trans hleft)
    rw [isLocal_comment line _ hline, Option.map_eq_some_iff] at hcut
    obtain ⟨⟨x, y⟩, hcut, hpair⟩ := hcut
    obtain ⟨-, rfl⟩ := Prod.mk.inj hpair
    obtain rfl := comment_eq_of_line hline hcut
    exact .inr ⟨[], rfl, List.not_mem_nil, fun _ => isIdle_nil⟩
  · -- Blanks leave the rest of their line.
    obtain ⟨left', hcut, hsame⟩ := Match.exists_append_of_ofPattern (isCut_many1 _) hmatch
    obtain rfl := List.append_cancel_left (hsame.symm.trans hleft)
    rw [stopsAt_many1 rfl line _ hline, Option.map_eq_some_iff] at hcut
    obtain ⟨⟨x, y⟩, hcut, hpair⟩ := hcut
    obtain ⟨-, rfl⟩ := Prod.mk.inj hpair
    obtain ⟨-, hpair⟩ := Option.ite_none_left_eq_some.1 hcut
    obtain ⟨-, rfl⟩ := Prod.mk.inj (Option.some.inj hpair)
    refine .inr ⟨line.dropWhile isBlank, rfl, fun hmem => hline (List.dropWhile_subset _ hmem),
      fun hidle c hc => ?_⟩
    rw [List.dropWhile_idempotent] at hc
    exact hidle c hc
  · -- The end of a line leaves the lines behind it.
    obtain ⟨left', hcut, hsame⟩ := Match.exists_append_of_ofPattern (isCut_one _) hmatch
    obtain rfl := List.append_cancel_left (hsame.symm.trans hleft)
    cases line with
    | nil =>
      obtain ⟨-, rfl⟩ := Prod.mk.inj (Option.some.inj hcut)
      exact .inl rfl
    | cons c line =>
      have hfeed := (Option.ite_none_right_eq_some.1 hcut).1
      obtain rfl : c = '\n' := by simpa using hfeed
      exact absurd List.mem_cons_self hline

/-- What such a rule leaves of idle lines is idle. -/
theorem IdleText.left_of_match? {cs left : List Char} {rule : Rule} {m : Match} (h : IdleText cs)
    (hrule : rule.IsGap) (hmatch : rule.match? cs = some m) (hleft : cs = m.lexeme ++ left) :
    IdleText left := by
  obtain ⟨lines, rfl, hlines⟩ := h
  cases lines with
  | nil =>
    obtain ⟨-, rfl⟩ := List.append_eq_nil_iff.1 hleft.symm
    exact ⟨[], rfl, by simp⟩
  | cons line lines =>
    obtain ⟨⟨hline, hidle⟩, hmore⟩ := List.forall_mem_cons.1 hlines
    rw [unlines_cons] at hmatch hleft
    rcases hrule.cases_of_match? hline hmatch hleft with rfl | ⟨line', rfl, hline', hidle'⟩
    · exact ⟨lines, rfl, hmore⟩
    · exact ⟨line' :: lines, (unlines_cons _ _).symm,
        List.forall_mem_cons.2 ⟨⟨hline', hidle' hidle⟩, hmore⟩⟩

namespace Scan

variable {table : LineTable} {s t u : Scan} {pieces : List Piece} {piece? : Option Piece}
  {body : OpenBody} {outer : List Activation}

/-! ## The end of the text -/

/-- At the end of the text nothing is open. -/
theorem Run.modes_of_rest_nil (hrun : Run table s pieces u) (hu : u.isDone = true)
    (hs : s.isDone = false) (hrest : s.rest = []) : s.modes = [] := by
  have hstep := step_of_rest_nil table hrest
  cases hrun with
  | refl => simp [hs] at hu
  | quiet _ hquiet => cases hstep.symm.trans hquiet
  | piece _ hpiece =>
    rcases effect_of_step hs hpiece with ⟨hmodes, -, -⟩ | ⟨ht, -, -⟩
    · exact hmodes
    · obtain ⟨rfl, -⟩ := Prod.mk.inj (hstep.symm.trans hpiece)
      cases ht

/-! ## Bodies -/

/-- An open body is closed with the line of the scan or a later one. -/
theorem Run.exists_closing (hrun : Run table s pieces u) (hu : u.isDone = true)
    (hs : s.isDone = false) (hmodes : s.modes = .body body :: outer) :
    ∃ current closed, s.position.line ≤ current ∧ body.step table current = some closed := by
  induction hrun with
  | refl s => simp [hs] at hu
  | quiet _ hstep _ ih =>
    obtain ⟨hline, ⟨-, -, hsame⟩ | ⟨closed, -, -, hpiece⟩⟩ := step_in_body none hmodes hstep
    · obtain ⟨current, closed, hle, hclosed⟩ :=
        ih hu ((step_quiet table hstep).2.trans hs) (hsame.trans hmodes)
      exact ⟨current, closed, by omega, hclosed⟩
    · cases hpiece
  | piece _ hstep _ _ _ =>
    obtain ⟨-, ⟨-, hpiece, -⟩ | ⟨closed, hclosed, -, -⟩⟩ := step_in_body (some _) hmodes hstep
    · cases hpiece
    · exact ⟨_, closed, Nat.le_refl _, hclosed⟩

end Scan

/-- A body ends in front of a line that is not blank. -/
theorem OpenBody.exists_filled {table : LineTable} {body : OpenBody} {current : Nat}
    {closed : ClosedBody} (h : body.step table current = some closed) :
    ∃ ahead, table.get? (current + 1) = some ahead ∧ ahead.isBlank = false := by
  obtain ⟨ahead, -, hahead, hstops, -, -⟩ := exists_of_step h
  refine ⟨ahead, hahead, ?_⟩
  cases hmarker : ahead.isMarker with
  | true =>
    have hcontent : ahead.hasContent = true := by
      unfold Line.isMarker at hmarker
      unfold Line.hasContent
      cases hnil : ahead.content with
      | nil =>
        rw [hnil] at hmarker
        cases hmarker
      | cons => rfl
    rw [Line.isBlank, hcontent]
    rfl
  | false =>
    rw [Line.continues, hmarker, Bool.not_false, Bool.true_and, Bool.or_eq_false_iff] at hstops
    exact hstops.1

namespace Scan

variable {table : LineTable} {s a u v : Scan} {pieces : List Piece} {body : OpenBody}
  {outer : List Activation}

/-- Behind the marker of an open body a line is left that is not blank. -/
theorem Run.exists_filled (hrun : Run table s pieces u) (hu : u.isDone = true)
    (hs : s.isDone = false) (hmodes : s.modes = .body body :: outer)
    (hle : body.marker ≤ s.position.line) :
    ∃ line ∈ table.lines.drop body.marker, (!line.isBlank) = true := by
  obtain ⟨current, closed, hlater, hclosed⟩ := hrun.exists_closing hu hs hmodes
  obtain ⟨ahead, hahead, hfilled⟩ := OpenBody.exists_filled hclosed
  have hsum : body.marker + (current - body.marker) = current := by omega
  refine ⟨ahead, ?_, by rw [hfilled]; rfl⟩
  refine List.mem_of_getElem? (i := current - body.marker) ?_
  rw [List.getElem?_drop, hsum, ← LineTable.get?_succ]
  exact hahead

/-- A marker behind which no body has just been closed opens one. -/
theorem modes_of_bodyMarker {marker : Line} {piece? : Option Piece}
    (hact : s.act table .bodyMarker m = (a, .ok piece?)) (hafter : s.afterBody = false)
    (hmarker : table.get? s.position.line = some marker) :
    a.modes = .body (.ofMarker table marker) :: s.modes := by
  cases accepts_of_act hact with
  | closingMarker hclosed => cases hafter.symm.trans hclosed
  | strayMarker _ hline => cases hline.symm.trans hmarker
  | bodyMarker _ hline =>
    obtain rfl := Option.some.inj (hline.symm.trans hmarker)
    rfl

/-- So it is behind a marker that opens a body. -/
theorem Run.exists_filled_of_openBody {marker : Line} {piece? : Option Piece}
    (hnumbered : table.Numbered) (hrun : Run table v pieces u) (hu : u.isDone = true)
    (hv : v.isDone = false) (hact : s.act table .bodyMarker m = (a, .ok piece?))
    (hafter : s.afterBody = false) (hmarker : table.get? s.position.line = some marker)
    (hmodes : v.modes = a.modes) (hle : s.position.line ≤ v.position.line) :
    ∃ line ∈ table.lines.drop marker.number, (!line.isBlank) = true := by
  rw [modes_of_bodyMarker hact hafter hmarker] at hmodes
  have hnumber : marker.number = s.position.line := hnumbered _ _ hmarker
  exact hrun.exists_filled hu hv hmodes (Nat.le_trans (Nat.le_of_eq hnumber) hle)

end Scan

namespace Scan

variable {table : LineTable} {s t u : Scan} {pieces : List Piece} {piece? : Option Piece}

/-! ## Blocks -/

/-- In a block idle lines are passed, and the block stays open. -/
theorem modes_of_idle (piece? : Option Piece) (h : IdleText s.rest) (hmode : s.mode = .block)
    (hrest : s.rest ≠ []) (hstep : s.step table = (t, piece?.map Except.ok)) :
    t.modes = s.modes ∧ IdleText t.rest := by
  rcases exists_of_step piece? hstep with ⟨hnil, -⟩ | ⟨rule, m, a, left, hselect, hleft, hact,
    hmodes, rfl, -⟩
  · exact absurd hnil hrest
  have hmatch := Mode.match?_of_select hselect
  have hmem := mem_rules_of_select hselect
  rw [hmode] at hmem
  have hidle : IsIdle s.rest := by
    obtain ⟨lines, hlines, hall⟩ := h
    rw [hlines]
    cases lines with
    | nil => exact isIdle_nil
    | cons line lines =>
      rw [unlines_cons]
      exact (hall line List.mem_cons_self).2.of_append_lineFeed
  have hrule := hidle.rule_of_match? hmem hmatch
  refine ⟨?_, h.left_of_match? hrule hmatch hleft⟩
  rw [hmodes]
  rcases hrule with rfl | rfl | rfl <;> cases accepts_of_act hact <;> rfl

/-- In a block that is to be closed the text that is left is not idle. -/
theorem Run.not_idleText (hrun : Run table s pieces u) (hu : u.isDone = true)
    (hs : s.isDone = false) (hmode : s.mode = .block) : ¬ IdleText s.rest := by
  intro hidle
  have hopen {s : Scan} (hmode : s.mode = .block) : s.modes ≠ [] := by
    intro hnil
    rw [mode, hnil] at hmode
    cases hmode
  induction hrun with
  | refl s => simp [hs] at hu
  | @quiet s t u pieces _ hstep hrest ih =>
    have hne : s.rest ≠ [] := fun hnil =>
      hopen hmode ((Run.quiet hs hstep hrest).modes_of_rest_nil hu hs hnil)
    obtain ⟨hsame, hidle'⟩ := modes_of_idle none hidle hmode hne hstep
    refine ih hu ((step_quiet table hstep).2.trans hs) ?_ hidle'
    rw [mode, hsame]
    exact hmode
  | @piece s t t' u piece pieces _ hstep hsettles hrest ih =>
    have hne : s.rest ≠ [] := fun hnil =>
      hopen hmode ((Run.piece hs hstep hsettles hrest).modes_of_rest_nil hu hs hnil)
    obtain ⟨hsame, hidle'⟩ := modes_of_idle (some piece) hidle hmode hne hstep
    rcases effect_of_step hs hstep with ⟨hmodes, -, -⟩ | ⟨ht, -, -⟩
    · exact hopen hmode hmodes
    · refine ih hu (hsettles.same.2.2.trans ht) ?_ (hsettles.rest_eq ▸ hidle')
      rw [mode, hsettles.same.1, hsame]
      exact hmode

/-- In a block a line with content is left. -/
theorem Run.exists_content {tabWidth : Nat} {text : List Char}
    (hclosed : text = [] ∨ text.getLast? = some '\n') (hstands : StandsIn text s)
    (hcolumn : s.position.column = 1) (hrun : Run (.ofText tabWidth text) s pieces u)
    (hu : u.isDone = true) (hs : s.isDone = false) (hmode : s.mode = .block) :
    ∃ line ∈ (LineTable.ofText tabWidth text).lines.drop (s.position.line - 1),
      line.hasContent = true := by
  by_contra hnone
  refine hrun.not_idleText hu hs hmode ⟨splitLines s.rest, ?_, fun chars hchars => ?_⟩
  · exact (unlines_splitLines_of_closed (hstands.closed_rest hclosed)).symm
  · refine ⟨lineFeed_not_mem_of_mem_splitLines hchars, ?_⟩
    rw [hstands.splitLines_rest hcolumn, ← LineTable.map_chars_ofText tabWidth text,
      ← List.map_drop, List.mem_map] at hchars
    obtain ⟨line, hline, rfl⟩ := hchars
    apply Line.isIdle_of_hasContent
    rw [← Bool.not_eq_true]
    exact fun hcontent => hnone ⟨line, hline, hcontent⟩

end Scan

end BlockLexer
