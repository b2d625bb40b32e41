import BlockLexer.Proofs.Blanks
import BlockLexer.Proofs.Endings
import BlockLexer.Proofs.Margin
import BlockLexer.Proofs.OneLine
import BlockLexer.Proofs.Trails

/-!
# Scans behind a margin

The lines of a text may be put behind blanks.  A scan does the same then, but at the front of
a line it has the blanks to take first.  A rule may take them with what it takes anyway, and
otherwise they are a piece of their own.

* `Text.Rests` is what is left of the two texts at the same place, and `Scan.IsPushed` are the
  two scans.
* `Scan.Ready`: the two select the same rule, which `Scan.IsPushed.exists_ready` brings about.
* `Scan.IsPushed.answers`: the tables of the two texts answer alike, if the scan of the first
  one comes to its end.
* `Scan.IsPushed.exists_run` is the run of the scan.
-/

namespace BlockLexer

open Text

/-- By how many columns a token may be further to the right behind blanks.  It does not matter
where a token is that is dropped, a body always is in the first column, and the end of the text
has no blanks in front of it. -/
def Kind.MovesBy (width : Nat) (kind : Kind) (columns : Nat) : Prop :=
  kind.isFiltered = true ∨ kind = .body ∨ columns = if kind = .endOfText then 0 else width

/-- Blanks may be more blanks elsewhere. -/
theorem Shift.follows_blanks {tabWidth columns : Nat} {blanks : List Char} {s s' a : Scan}
    {table : LineTable} {m : Match} {piece? : Option Piece}
    (h : (margin tabWidth blanks).Memories s s')
    (hp : (margin tabWidth blanks).Positions columns s.position s'.position) (m' : Match)
    {table' : LineTable} (hact : s.act table .blanks m = (a, .ok piece?)) :
    (margin tabWidth blanks).Follows columns a piece? (s'.act table' .blanks m') := by
  cases hact
  refine .some h ⟨rfl, rfl, trivial, trivial, hp.line, ?_⟩
  show s'.position.column = s.position.column + columns
  exact hp.column

/-! ## What is left of the two texts -/

/-- What is left of some lines, and of the same lines behind blanks.  `columns` is how far the
columns of the two places differ. -/
inductive Text.Rests (blanks : List Char) : (columns : Nat) → List Char → List Char → Prop
  | done : Rests blanks 0 [] []
  /-- Both are at the same place of a line. -/
  | level {columns : Nat} {line : List Char} {lines : List (List Char)} (hline : '\n' ∉ line)
      (hlines : ∀ line ∈ lines, '\n' ∉ line) (hcolumns : line ≠ [] → columns = blanks.length) :
      Rests blanks columns (line ++ '\n' :: unlines lines)
        (line ++ '\n' :: unlines (lines.map (pushed blanks)))
  /-- Both are at the front of a line, and the second one has blanks to take first. -/
  | ahead {line : List Char} {lines : List (List Char)} (hline : '\n' ∉ line)
      (hlines : ∀ line ∈ lines, '\n' ∉ line) (hne : line ≠ []) (hblanks : blanks ≠ []) :
      Rests blanks 0 (line ++ '\n' :: unlines lines)
        (blanks ++ (line ++ '\n' :: unlines (lines.map (pushed blanks))))

section Rests

variable {d : Shift} {blanks line lexeme : List Char} {lines : List (List Char)} {columns : Nat}
  {p p' : Position}

theorem Text.rests_unlines (blanks : List Char) (hlines : ∀ line ∈ lines, '\n' ∉ line) :
    Rests blanks 0 (unlines lines) (unlines (lines.map (pushed blanks))) := by
  cases lines with
  | nil => exact .done
  | cons line lines =>
    obtain ⟨hline, hmore⟩ := List.forall_mem_cons.1 hlines
    rw [List.map_cons, unlines_cons, unlines_cons]
    by_cases hne : line = []
    · subst hne
      exact .level hline hmore fun hne => absurd rfl hne
    · rw [pushed_of_ne_nil blanks hne, List.append_assoc]
      by_cases hblanks : blanks = []
      · subst hblanks
        exact .level hline hmore fun _ => rfl
      · exact .ahead hline hmore hne hblanks

theorem Text.Rests.eq_of_nil {cs' : List Char} (h : Rests blanks columns [] cs') :
    columns = 0 ∧ cs' = [] := by
  generalize hnil : [] = cs at h
  cases h with
  | done => exact ⟨rfl, rfl⟩
  | level | ahead => simp at hnil

/-- Behind a lexeme that ends within the line, or with it, the two are at the same place
again. -/
theorem Text.exists_rests_drop (hline : '\n' ∉ line) (hlines : ∀ line ∈ lines, '\n' ∉ line)
    (hcolumns : line ≠ [] → columns = blanks.length) (hp : d.Positions columns p p')
    (hne : lexeme ≠ []) (hlexeme : (∃ left, line = lexeme ++ left) ∨ lexeme = line ++ ['\n']) :
    ∃ columns', Rests blanks columns' ((line ++ '\n' :: unlines lines).drop lexeme.length)
        ((line ++ '\n' :: unlines (lines.map (pushed blanks))).drop lexeme.length) ∧
      d.Positions columns' (p.after lexeme) (p'.after lexeme) ∧
      ('\n' ∉ lexeme → columns' = blanks.length) := by
  rcases hlexeme with ⟨left, rfl⟩ | rfl
  · obtain ⟨hlexeme, hleft⟩ := not_or.1 (mt List.mem_append.2 hline)
    have hsame := hcolumns (List.append_ne_nil_of_left_ne_nil hne left)
    refine ⟨columns, ?_, hp.after hlexeme, fun _ => hsame⟩
    rw [List.append_assoc, List.append_assoc, List.drop_left, List.drop_left]
    exact .level hleft hlines fun _ => hsame
  · refine ⟨0, ?_, ?_, fun hfree => absurd (List.mem_append_right line List.mem_cons_self) hfree⟩
    · have hcut (more : List Char) : line ++ '\n' :: more = line ++ ['\n'] ++ more := by simp
      rw [hcut (unlines lines), hcut (unlines (lines.map (pushed blanks))), List.drop_left,
        List.drop_left]
      exact rests_unlines blanks hlines
    · rw [Position.after_append, Position.after_append]
      exact (hp.after hline).next_lineFeed

/-- Within a line every character takes a column. -/
theorem Position.column_after {cs : List Char} (hfree : '\n' ∉ cs) (p : Position) :
    (p.after cs).column = p.column + cs.length := by
  induction cs generalizing p with
  | nil => rfl
  | cons c cs ih =>
    rw [List.mem_cons, not_or] at hfree
    show ((p.next c).after cs).column = _
    rw [ih hfree.2, Position.next, if_neg (Ne.symm hfree.1), List.length_cons]
    show p.column + 1 + cs.length = _
    omega

/-- Behind the blanks the second place is further to the right. -/
theorem Shift.positions_after_blanks {tabWidth : Nat} (hfree : '\n' ∉ blanks)
    (hp : (margin tabWidth blanks).Positions 0 p p') :
    (margin tabWidth blanks).Positions blanks.length p (p'.after blanks) := by
  refine ⟨trivial, ?_, ?_⟩
  · rw [Position.line_after, List.count_eq_zero.2 hfree]
    exact hp.line
  · rw [Position.column_after hfree, hp.column, Nat.add_zero]

end Rests

/-! ## Two scans -/

/-- In a body a whole line is taken. -/
theorem Mode.select_body {line : List Char} (hline : '\n' ∉ line) (more : List Char) :
    Mode.body.select (line ++ '\n' :: more) = some (.bodyLine, { lexeme := line ++ ['\n'] }) := by
  have hmany : Pattern.many Lexeme.inLine (line ++ '\n' :: more) = some (line, '\n' :: more) := by
    have hin : ∀ c ∈ line, Lexeme.inLine c = true := by
      intro c hc
      simpa [Lexeme.inLine] using ne_of_mem_of_not_mem hc hline
    rw [Pattern.many, List.takeWhile_append_of_pos hin, List.dropWhile_append_of_pos hin]
    simp [Lexeme.inLine]
  have hcut : (Pattern.many Lexeme.inLine).seq Lexeme.lineEnd (line ++ '\n' :: more) =
      some (line ++ ['\n'], more) := Pattern.seq_eq_some hmany rfl
  have hmatch : Rule.match? .bodyLine (line ++ '\n' :: more) = some { lexeme := line ++ ['\n'] } :=
    Match.ofPattern_eq_some hcut
  have htake : Rule.take? (line ++ '\n' :: more) .bodyLine =
      some (.bodyLine, { lexeme := line ++ ['\n'] }) := by
    unfold Rule.take?
    rw [hmatch]
    simp
  unfold Mode.select
  rw [Mode.rules, List.findSome?_cons, htake]

namespace Scan

variable {table table' : LineTable} {tabWidth columns : Nat} {blanks text : List Char}
  {s s' t u v a : Scan} {pieces : List Piece} {piece? : Option Piece} {rule : Rule} {m m' : Match}

/-- The second scan reads the same as the first one, behind blanks. -/
structure IsPushed (tabWidth : Nat) (blanks : List Char) (columns : Nat) (s s' : Scan) : Prop where
  rests : Rests blanks columns s.rest s'.rest
  positions : (Shift.margin tabWidth blanks).Positions columns s.position s'.position
  memories : (Shift.margin tabWidth blanks).Memories s s'
  string : ∀ style, s.mode = .string style → columns = blanks.length

/-- The two select the same rule.  It takes the same, or blanks in front of it, and the two are
at the same place behind it. -/
structure Ready (tabWidth : Nat) (blanks : List Char) (columns : Nat) (rule : Rule) (m m' : Match)
    (s s' : Scan) : Prop extends IsPushed tabWidth blanks columns s s' where
  select : s'.mode.select s'.rest = some (rule, m')
  same : rule = .blanks ∨ ∀ (table : LineTable) (v : Scan), v.act table rule m' = v.act table rule m
  moved : columns = blanks.length ∨ rule.takesBlank = true ∨ rule.takesLineFeed = true
  behind : ∃ columns', Rests blanks columns' (s.rest.drop m.lexeme.length)
      (s'.rest.drop m'.lexeme.length) ∧
    (Shift.margin tabWidth blanks).Positions columns' (s.position.after m.lexeme)
      (s'.position.after m'.lexeme) ∧
    ('\n' ∉ m.lexeme → columns' = blanks.length)

/-! ## The next match -/

section Selection

variable {line : List Char} {lines : List (List Char)}

theorem IsPushed.ready_of_level (h : IsPushed tabWidth blanks columns s s')
    (hrest : s.rest = line ++ '\n' :: unlines lines)
    (hrest' : s'.rest = line ++ '\n' :: unlines (lines.map (pushed blanks))) (hline : '\n' ∉ line)
    (hlines : ∀ line ∈ lines, '\n' ∉ line) (hcolumns : line ≠ [] → columns = blanks.length)
    (hselect : s.mode.select s.rest = some (rule, m)) (htext : rule.RunsOn → '\n' ∉ m.lexeme) :
    Ready tabWidth blanks columns rule m m s s' := by
  have hlexeme := hselect
  rw [hrest] at hlexeme
  refine ⟨h, ?_, .inr fun _ _ => rfl, ?_, ?_⟩
  · rw [h.memories.mode, hrest']
    exact Mode.select_of_lexeme hline hlexeme htext
  · by_cases hne : line = []
    · -- Here the line ends.
      right; right
      by_contra hfeed
      have hmatch := Mode.match?_of_select hlexeme
      rw [hne, List.nil_append, Rule.match?_of_lineFeed (by simpa using hfeed)] at hmatch
      cases hmatch
    · exact .inl (hcolumns hne)
  · rw [hrest, hrest']
    exact exists_rests_drop hline hlines hcolumns h.positions (Mode.select_lexeme_ne_nil hselect)
      (Mode.lexeme_of_select hline hlexeme htext)

/-- The second scan takes the blanks together with what the first one takes. -/
theorem IsPushed.ready_of_ahead (h : IsPushed tabWidth blanks 0 s s') (hfree : '\n' ∉ blanks)
    (hrest : s.rest = line ++ '\n' :: unlines lines)
    (hrest' : s'.rest = blanks ++ (line ++ '\n' :: unlines (lines.map (pushed blanks))))
    (hline : '\n' ∉ line) (hlines : ∀ line ∈ lines, '\n' ∉ line)
    (hselect : s.mode.select s.rest = some (rule, m)) (htext : rule.RunsOn → '\n' ∉ m.lexeme)
    (hrule : rule.takesBlank = true)
    (hsame : rule = .blanks ∨
      ∀ (table : LineTable) (v : Scan), v.act table rule (m.behind blanks) = v.act table rule m)
    (hselect' : s'.mode.select s'.rest = some (rule, m.behind blanks)) :
    Ready tabWidth blanks 0 rule m (m.behind blanks) s s' := by
  have hlexeme := hselect
  rw [hrest] at hlexeme
  have hp : (Shift.margin tabWidth blanks).Positions blanks.length s.position
      (s'.position.after blanks) := Shift.positions_after_blanks hfree h.positions
  refine ⟨h, hselect', hsame, .inr (.inl hrule), ?_⟩
  have hdrop (cs : List Char) : (blanks ++ cs).drop (m.behind blanks).lexeme.length =
      cs.drop m.lexeme.length := by
    show (blanks ++ cs).drop (blanks ++ m.lexeme).length = _
    rw [List.length_append, ← List.drop_drop, List.drop_left]
  have hafter : s'.position.after (m.behind blanks).lexeme =
      (s'.position.after blanks).after m.lexeme := Position.after_append _ _ _
  rw [hrest, hrest', hdrop, hafter]
  exact exists_rests_drop hline hlines (fun _ => rfl) hp (Mode.select_lexeme_ne_nil hselect)
    (Mode.lexeme_of_select hline hlexeme htext)

/-- The second scan takes the blanks by themselves first. -/
theorem IsPushed.exists_gap (h : IsPushed tabWidth blanks 0 s s') (hfree : '\n' ∉ blanks)
    (hs' : s'.isDone = false) (hline : '\n' ∉ line)
    (hlines : ∀ line ∈ lines, '\n' ∉ line) (hrest : s.rest = line ++ '\n' :: unlines lines)
    (hrest' : s'.rest = blanks ++ (line ++ '\n' :: unlines (lines.map (pushed blanks))))
    (hselect' : s'.mode.select s'.rest = some (.blanks, { lexeme := blanks }))
    (table' : LineTable) :
    ∃ gap s'', gap.kind = .token .blanks ∧ Run table' s' [gap] s'' ∧
      IsPushed tabWidth blanks blanks.length s s'' ∧
      s''.rest = line ++ '\n' :: unlines (lines.map (pushed blanks)) := by
  let gap := s'.token .blanks .nothing blanks
  let s'' := (s'.report (.ruleMatched .blanks s'.mode s'.position.line s'.position.column)).advance
    blanks
  have hstep : s'.step table' = (s'', some (.ok gap)) := step_of_select hselect' rfl
  have hleft : s''.rest = line ++ '\n' :: unlines (lines.map (pushed blanks)) := by
    show s'.rest.drop blanks.length = _
    rw [hrest', List.drop_left]
  have hkind : gap.kind = .token .blanks := rfl
  have hsettles : Settles table' gap s'' s'' := .other (by simp [hkind]) (by simp [hkind])
  refine ⟨gap, s'', hkind, .piece hs' hstep hsettles (.refl s''), ⟨?_, ?_, ?_, ?_⟩, hleft⟩
  · rw [hrest, hleft]
    exact .level hline hlines fun _ => rfl
  · exact Shift.positions_after_blanks hfree h.positions
  · exact ⟨h.memories.modes, h.memories.blocks, h.memories.last, h.memories.afterBody,
      h.memories.isDone⟩
  · exact fun _ _ => rfl

/-- At the front of a line the two select the same rule, or the second one has the blanks to
take first. -/
theorem IsPushed.exists_ready_of_ahead (h : IsPushed tabWidth blanks 0 s s')
    (hblanks : ∀ c ∈ blanks, isBlank c = true) (hne : blanks ≠ []) (hs' : s'.isDone = false)
    (hline : '\n' ∉ line) (hlines : ∀ line ∈ lines, '\n' ∉ line)
    (hrest : s.rest = line ++ '\n' :: unlines lines)
    (hrest' : s'.rest = blanks ++ (line ++ '\n' :: unlines (lines.map (pushed blanks))))
    (hselect : s.mode.select s.rest = some (rule, m)) (htext : rule.RunsOn → '\n' ∉ m.lexeme)
    (hmode : s.mode = .default ∨ s.mode = .block ∨ s.mode = .expression) (table' : LineTable) :
    ∃ gaps columns' s'' m', (∀ gap ∈ gaps, gap.kind = .token .blanks) ∧ Run table' s' gaps s'' ∧
      Ready tabWidth blanks columns' rule m m' s s'' := by
  have hfree : '\n' ∉ blanks := not_mem_of_isBlank hblanks (by decide)
  have hlexeme := hselect
  rw [hrest] at hlexeme
  have hsight : s.mode.select (line ++ '\n' :: unlines (lines.map (pushed blanks))) =
      some (rule, m) := Mode.select_of_lexeme hline hlexeme htext
  rcases Mode.select_append_blanks hmode hblanks hne hsight with ⟨hrule, hbehind⟩ | hgap
  · rw [← hrest', ← h.memories.mode] at hbehind
    have hblank : rule.takesBlank = true := by
      rcases hrule with rfl | rfl | rfl <;> rfl
    have hsame : rule = .blanks ∨ ∀ (table : LineTable) (v : Scan),
        v.act table rule (m.behind blanks) = v.act table rule m := by
      rcases hrule with rfl | rfl | rfl
      · exact .inr fun _ _ => rfl
      · exact .inr fun _ _ => rfl
      · exact .inl rfl
    exact ⟨[], 0, s', m.behind blanks, by simp, .refl s',
      h.ready_of_ahead hfree hrest hrest' hline hlines hselect htext hblank hsame hbehind⟩
  · rw [← hrest', ← h.memories.mode] at hgap
    obtain ⟨gap, s'', hkind, hrun, hlevel, hleft⟩ :=
      h.exists_gap hfree hs' hline hlines hrest hrest' hgap table'
    exact ⟨[gap], blanks.length, s'', m, by simpa using hkind, hrun,
      hlevel.ready_of_level hrest hleft hline hlines (fun _ => rfl) hselect htext⟩

/-- A body takes a line together with the blanks in front of it. -/
theorem IsPushed.ready_of_body (h : IsPushed tabWidth blanks 0 s s')
    (hfree : '\n' ∉ blanks) (hline : '\n' ∉ line) (hlines : ∀ line ∈ lines, '\n' ∉ line)
    (hrest : s.rest = line ++ '\n' :: unlines lines)
    (hrest' : s'.rest = blanks ++ (line ++ '\n' :: unlines (lines.map (pushed blanks))))
    (hselect : s.mode.select s.rest = some (rule, m)) (htext : rule.RunsOn → '\n' ∉ m.lexeme)
    (hmode : s.mode = .body) : Ready tabWidth blanks 0 rule m (m.behind blanks) s s' := by
  have hwhole := hselect
  rw [hmode, hrest, Mode.select_body hline] at hwhole
  obtain ⟨rfl, rfl⟩ := Prod.mk.inj (Option.some.inj hwhole)
  have hline' : '\n' ∉ blanks ++ line := by
    rw [List.mem_append, not_or]
    exact ⟨hfree, hline⟩
  refine h.ready_of_ahead hfree hrest hrest' hline hlines hselect htext rfl (.inr fun _ _ => rfl) ?_
  rw [h.memories.mode, hmode, hrest', ← List.append_assoc, Mode.select_body hline']
  simp [Match.behind]

/-- The two select the same rule, perhaps behind blanks that the second one has to take
first. -/
theorem IsPushed.exists_ready (h : IsPushed tabWidth blanks columns s s')
    (hblanks : ∀ c ∈ blanks, isBlank c = true) (hs' : s'.isDone = false)
    (hselect : s.mode.select s.rest = some (rule, m)) (htext : rule.RunsOn → '\n' ∉ m.lexeme)
    (table' : LineTable) :
    ∃ gaps columns' s'' m', (∀ gap ∈ gaps, gap.kind = .token .blanks) ∧
      (gaps = [] ∨ ∀ style, s.mode ≠ .string style) ∧ Run table' s' gaps s'' ∧
      Ready tabWidth blanks columns' rule m m' s s'' := by
  have hrests := h.rests
  generalize hrest : s.rest = cs at hrests
  generalize hrest' : s'.rest = cs' at hrests
  cases hrests with
  | done => exact absurd hrest (Mode.ne_nil_of_select hselect)
  | level hline hlines hcolumns =>
    exact ⟨[], columns, s', m, by simp, .inl rfl, .refl s',
      h.ready_of_level hrest hrest' hline hlines hcolumns hselect htext⟩
  | @ahead line lines hline hlines _ hne =>
    have hstring (style : QuoteStyle) : s.mode ≠ .string style := by
      intro hmode
      exact hne (List.length_eq_zero_iff.1 (h.string style hmode).symm)
    have ahead (hmode : s.mode = .default ∨ s.mode = .block ∨ s.mode = .expression) :=
      h.exists_ready_of_ahead hblanks hne hs' hline hlines hrest hrest' hselect htext hmode table'
    cases hmode : s.mode with
    | default | block | expression =>
      obtain ⟨gaps, columns', s'', m', hgaps, hrun, hready⟩ := ahead (by simp [hmode])
      exact ⟨gaps, columns', s'', m', hgaps, .inr (by simp), hrun, hready⟩
    | body =>
      have hfree : '\n' ∉ blanks := not_mem_of_isBlank hblanks (by decide)
      exact ⟨[], 0, s', m.behind blanks, by simp, .inl rfl, .refl s',
        h.ready_of_body hfree hline hlines hrest hrest' hselect htext hmode⟩
    | string style => exact absurd hmode (hstring style)

end Selection

/-! ## What the tables answer -/

/-- A scan in front of a character is on a line that is not empty. -/
theorem StandsIn.exists_line {c : Char} {more : List Char} (h : StandsIn text s)
    (hrest : s.rest = c :: more) (hc : c ≠ '\n') (tabWidth : Nat) :
    ∃ line, (LineTable.ofText tabWidth text).get? s.position.line = some line ∧
      line.chars ≠ [] := by
  obtain ⟨passed, htext, -⟩ := id h
  obtain ⟨line, hline, hchars, -⟩ := h.exists_line_at htext (by simp [hrest]) tabWidth
  refine ⟨line, hline, ?_⟩
  rw [hchars, hrest, List.takeWhile_cons_of_pos (by simpa using hc)]
  exact List.append_ne_nil_of_right_ne_nil _ (List.cons_ne_nil _ _)

/-- Only some rules begin with the end of a line, so in front of the others the line is not
empty. -/
theorem StandsIn.exists_line_of_select (h : StandsIn text s)
    (hselect : s.mode.select s.rest = some (rule, m)) (hrule : rule.takesLineFeed = false)
    (tabWidth : Nat) :
    ∃ line, (LineTable.ofText tabWidth text).get? s.position.line = some line ∧
      line.chars ≠ [] := by
  obtain ⟨c, more, hrest⟩ := List.exists_cons_of_ne_nil (Mode.ne_nil_of_select hselect)
  refine h.exists_line hrest ?_ tabWidth
  rintro rfl
  have hmatch := Mode.match?_of_select hselect
  rw [hrest, Rule.match?_of_lineFeed hrule] at hmatch
  cases hmatch

/-- What is taken at the end of a line, or begins with a blank, is dropped, is a body, or is
the text of a string. -/
theorem kind_of_gap {piece : Piece} (hrule : rule.takesBlank = true ∨ rule.takesLineFeed = true)
    (hact : s.act table rule m = (a, .ok (some piece))) :
    piece.kind = .token .blanks ∨ piece.kind = .token .newline ∨ piece.kind = .token .body ∨
      ∃ style, rule = .stringText style := by
  cases accepts_of_act hact with
  | blanks => exact .inl rfl
  | newline | headerNewline | memberNewline | lastNewline | expressionNewline =>
    exact .inr (.inl rfl)
  | lastBodyLine => exact .inr (.inr (.inl rfl))
  | stringText => exact .inr (.inr (.inr ⟨_, rfl⟩))
  | _ => simp [Rule.takesBlank, Rule.takesLineFeed] at hrule

/-- So it is where the name of an attribute stands. -/
theorem StandsIn.exists_line_of_attributeName {piece : Piece} (h : StandsIn text s)
    (hs : s.isDone = false) (hrest : s.rest ≠ [])
    (hstep : s.step table = (t, some (.ok piece))) (hkind : piece.kind = .token .attributeName)
    (tabWidth : Nat) :
    ∃ line, (LineTable.ofText tabWidth text).get? piece.span.line = some line ∧
      line.chars ≠ [] := by
  rw [line_of_attributeName hs hstep hkind]
  rcases exists_of_step (some piece) hstep with ⟨hnil, -⟩ | ⟨rule, m, a, left, hselect, -, hact, -⟩
  · exact absurd hnil hrest
  · refine h.exists_line_of_select hselect ?_ tabWidth
    by_contra hfeed
    rcases kind_of_gap (.inr (by simpa using hfeed)) hact with hother | hother | hother |
      ⟨style, rfl⟩
    · cases hother.symm.trans hkind
    · cases hother.symm.trans hkind
    · cases hother.symm.trans hkind
    · cases hact
      cases hkind

/-- The two tables answer alike, if the scan of the first text comes to the end. -/
theorem IsPushed.answers (h : IsPushed tabWidth blanks columns s s')
    (htable : (LineTable.ofText tabWidth text).IsPushed blanks table')
    (hblanks : ∀ c ∈ blanks, isBlank c = true) (htab : 0 < tabWidth) (hstands : StandsIn text s)
    (hselect : s.mode.select s.rest = some (rule, m))
    (hact : (s.report (.ruleMatched rule s.mode s.position.line s.position.column)).act
      (.ofText tabWidth text) rule m = (a, .ok piece?))
    (hmodes : v.modes = a.modes) (hposition : v.position = s.position.after m.lexeme)
    (hv : v.isDone = false) (hrun : Run (.ofText tabWidth text) v pieces u) (hu : u.isDone = true) :
    (Shift.margin tabWidth blanks).Answers (.ofText tabWidth text) table' rule s s' := by
  have hline : s'.position.line = s.position.line := h.positions.line
  refine ⟨fun hrule => ?_, fun hrule hafter => ?_, fun _ _ => ?_,
    fun _ body body' _ _ hbodies => ?_⟩
  · have hfeed : rule.takesLineFeed = false := by
      rcases hrule with rfl | rfl <;> rfl
    obtain ⟨line, hget, hne⟩ := hstands.exists_line_of_select hselect hfeed tabWidth
    rw [hline]
    exact htable.indentOf_eq hblanks hget hne
  · subst hrule
    have hrel := htable.get?_rel s.position.line
    rw [hline]
    cases hmarker : (LineTable.ofText tabWidth text).get? s.position.line with
    | none =>
      rw [hmarker] at hrel
      rw [eq_none_of_rel hrel]
      exact .none
    | some marker =>
      rw [hmarker] at hrel
      obtain ⟨marker', hmarker', hpushed⟩ := exists_of_rel_some hrel
      have hle : s.position.line ≤ v.position.line := by
        rw [hposition, Position.line_after]
        exact Nat.le_add_right _ _
      have hfilled := hrun.exists_filled_of_openBody (LineTable.numbered_ofText tabWidth text) hu hv
        hact hafter hmarker hmodes hle
      rw [hmarker']
      exact .some (Shift.bodies_margin htable hblanks hpushed hfilled)
  · rw [hline]
    exact htable.nextContentAfter_eq hblanks s.position.line
  · rw [hline]
    exact Shift.step_margin htable hblanks htab hbodies s.position.line

/-! ## Columns -/

/-- The column of a piece is larger by the length of the blanks, unless it does not matter. -/
theorem Ready.movesBy {piece : Piece} (h : Ready tabWidth blanks columns rule m m' s s')
    (hselect : s.mode.select s.rest = some (rule, m))
    (hact : (s.report (.ruleMatched rule s.mode s.position.line s.position.column)).act table
      rule m = (a, .ok (some piece))) (hend : piece.kind ≠ .token .endOfText) :
    piece.kind.tokenKind.MovesBy blanks.length columns := by
  have moved (hcolumns : columns = blanks.length) :
      piece.kind.tokenKind.MovesBy blanks.length columns := by
    right; right
    rw [if_neg, hcolumns]
    intro hkind
    cases hpiece : piece.kind with
    | token kind =>
      rw [hpiece] at hkind hend
      exact hend (congrArg PieceKind.token hkind)
    | _ =>
      rw [hpiece] at hkind
      cases hkind
  rcases h.moved with hcolumns | hgap
  · exact moved hcolumns
  · rcases kind_of_gap hgap hact with hkind | hkind | hkind | ⟨style, rfl⟩
    · rw [hkind]
      exact .inl rfl
    · rw [hkind]
      exact .inl rfl
    · rw [hkind]
      exact .inr (.inl rfl)
    · exact moved (h.string style (Mode.eq_of_mem_rules (mem_rules_of_select hselect) rfl))

/-! ## Steps -/

/-- The two take the same step. -/
theorem Ready.exists_step (h : Ready tabWidth blanks columns rule m m' s s')
    (hselect : s.mode.select s.rest = some (rule, m))
    (hanswers : (Shift.margin tabWidth blanks).Answers table table' rule s s')
    (hstep : s.step table = (t, piece?.map Except.ok))
    (hstring : ∀ style, t.mode = .string style → '\n' ∉ m.lexeme) :
    ∃ t' piece?' columns', s'.step table' = (t', piece?'.map Except.ok) ∧
      IsPushed tabWidth blanks columns' t t' ∧
      Option.Rel ((Shift.margin tabWidth blanks).Pieces columns) piece? piece?' := by
  have hreported := h.memories.report (.ruleMatched rule s.mode s.position.line s.position.column)
    (.ruleMatched rule s'.mode s'.position.line s'.position.column)
  have hfollows (a : Scan)
      (hact : (s.report (.ruleMatched rule s.mode s.position.line s.position.column)).act table
        rule m = (a, .ok piece?)) :
      (Shift.margin tabWidth blanks).Follows columns a piece?
        ((s'.report (.ruleMatched rule s'.mode s'.position.line s'.position.column)).act table'
          rule m') := by
    rcases h.same with hrule | hsame
    · subst hrule
      exact Shift.follows_blanks hreported h.positions m' hact
    · rw [hsame]
      exact Shift.follows_act hreported h.positions
        ⟨hanswers.indent, hanswers.marker, hanswers.content, hanswers.body⟩ hact
  obtain ⟨t', piece?', hstep', hmemories, hpieces, hmoves, hmoves'⟩ :=
    Shift.exists_step_of_follows hselect h.select hfollows hstep
  obtain ⟨columns', hrests, hpositions, hcolumns⟩ := h.behind
  refine ⟨t', piece?', columns', hstep', ⟨?_, ?_, hmemories, fun style hmode => ?_⟩, hpieces⟩
  · rw [hmoves.rest, hmoves'.rest]
    exact hrests
  · rw [hmoves.position, hmoves'.position]
    exact hpositions
  · exact hcolumns (hstring style hmode)

/-! ## Runs -/

/-- The later stages do not move the two. -/
theorem IsPushed.of_settles {piece piece' : Piece} {t' v' : Scan}
    (h : IsPushed tabWidth blanks columns t t') (hsettles : Settles table piece t v)
    (hsettles' : Settles table' piece' t' v')
    (hmemories : (Shift.margin tabWidth blanks).Memories v v') :
    IsPushed tabWidth blanks columns v v' := by
  refine ⟨?_, ?_, hmemories, fun style hmode => h.string style ?_⟩
  · rw [hsettles.rest_eq, hsettles'.rest_eq]
    exact h.rests
  · rw [hsettles.position_eq, hsettles'.position_eq]
    exact h.positions
  · rw [← hmode, mode, mode, hsettles.same.1]

/-- Both texts end at the same time, and there are no blanks in front of the end. -/
theorem IsPushed.exists_end (h : IsPushed tabWidth blanks columns s s') (hs : s.isDone = false)
    (hnil : s.rest = []) (hmodes : s.modes = []) (table' : LineTable) :
    ∃ piece', Run table' s' [piece'] { s' with isDone := true } ∧
      (Shift.margin tabWidth blanks).Pieces 0 (s.token .endOfText .nothing []) piece' := by
  have hrests := h.rests
  rw [hnil] at hrests
  obtain ⟨rfl, hnil'⟩ := hrests.eq_of_nil
  obtain ⟨piece', hfinish', hpieces⟩ := Shift.exists_finish table' h.memories h.positions
    (finish_of_modes_nil table' hmodes)
  have hkind : piece'.kind = .token .endOfText := hpieces.kind
  have hstep' := step_of_rest_nil table' hnil'
  rw [hfinish'] at hstep'
  exact ⟨piece', .piece (h.memories.isDone.trans hs) hstep'
    (.other (by simp [hkind]) (by simp [hkind])) (.refl _), hpieces⟩

section Runs

variable (htable : (LineTable.ofText tabWidth text).IsPushed blanks table')
  (hblanks : ∀ c ∈ blanks, isBlank c = true) (htab : 0 < tabWidth)

include htable hblanks htab

/-- The second scan follows a step of the first one, perhaps behind blanks. -/
theorem IsPushed.exists_step (piece? : Option Piece) (h : IsPushed tabWidth blanks columns s s')
    (hway : OnWay (.ofText tabWidth text) text s) (hs : s.isDone = false) (hrest : s.rest ≠ [])
    (hstep : s.step (.ofText tabWidth text) = (t, piece?.map Except.ok))
    (hmodes : v.modes = t.modes) (hposition : v.position = t.position) (hv : v.isDone = false)
    (hrun : Run (.ofText tabWidth text) v pieces u) (hu : u.isDone = true)
    (hkeeps : KeepsLine s.openLine (piece?.toList ++ pieces)) :
    ∃ gaps s'' t' piece?' columns' columns'', Run table' s' gaps s'' ∧ s''.isDone = false ∧
      s''.step table' = (t', piece?'.map Except.ok) ∧ IsPushed tabWidth blanks columns'' t t' ∧
      Option.Rel ((Shift.margin tabWidth blanks).Pieces columns') piece? piece?' ∧
      ∀ pieces', (Shift.margin tabWidth blanks).Trails (Kind.MovesBy blanks.length) pieces pieces' →
        (Shift.margin tabWidth blanks).Trails (Kind.MovesBy blanks.length)
          (piece?.toList ++ pieces) (gaps ++ (piece?'.toList ++ pieces')) := by
  rcases exists_of_step piece? hstep with ⟨hnil, -⟩ | ⟨rule, m, a, left, hselect, -, hact, htmodes,
    -, htposition⟩
  · exact absurd hnil hrest
  have hfree {style : QuoteStyle} (hmode : s.mode = .string style ∨ t.mode = .string style) :
      '\n' ∉ m.lexeme :=
    hkeeps.lineFeed_not_mem hs hway.stacked hmode hselect hstep hposition hrun
  have htext (hruns : rule.RunsOn) : '\n' ∉ m.lexeme := by
    obtain ⟨style, rfl, -⟩ := hruns
    exact hfree (.inl (Mode.eq_of_mem_rules (mem_rules_of_select hselect) rfl))
  obtain ⟨gaps, columns', s'', m', hgaps, hclosed, hrun', hready⟩ :=
    h.exists_ready hblanks (h.memories.isDone.trans hs) hselect htext table'
  have hanswers := hready.answers htable hblanks htab hway.stands hselect hact
    (hmodes.trans htmodes) (hposition.trans htposition) hv hrun hu
  obtain ⟨t', piece?', columns'', hstep', ht, hpieces⟩ :=
    hready.exists_step hselect hanswers hstep fun style hmode => hfree (.inr hmode)
  refine ⟨gaps, s'', t', piece?', columns', columns'', hrun', hready.memories.isDone.trans hs,
    hstep', ht, hpieces, fun pieces' htrails => ?_⟩
  apply Shift.Trails.behind hgaps
  · refine hclosed.imp_right fun hmode => ?_
    rw [openLine_eq_none hmode] at hkeeps
    exact hkeeps.not_goesOn
  · cases hpieces with
    | none => exact htrails
    | @some piece piece' hpiece =>
      refine .cons hpiece (hready.movesBy hselect hact fun hend => ?_) htrails
      exact (effect_of_rest (some piece) hs hrest hstep).not_isLast hend

/-- The two yield the same pieces, further to the right, and the second one has blanks among
them. -/
theorem IsPushed.exists_run (h : IsPushed tabWidth blanks columns s s')
    (hway : OnWay (.ofText tabWidth text) text s) (hrun : Run (.ofText tabWidth text) s pieces u)
    (hu : u.isDone = true) (hkeeps : KeepsLine s.openLine pieces) :
    ∃ pieces' u', Run table' s' pieces' u' ∧ u'.isDone = true ∧
      (Shift.margin tabWidth blanks).Trails (Kind.MovesBy blanks.length) pieces pieces' := by
  have hnumbered := LineTable.numbered_ofText tabWidth text
  induction hrun generalizing s' columns with
  | refl s => exact ⟨[], s', .refl s', h.memories.isDone.trans hu, .nil⟩
  | @quiet s t u pieces hs hstep hrest ih =>
    have hne := rest_ne_nil_of_step_quiet hstep
    have ht := (step_quiet (.ofText tabWidth text) hstep).2.trans hs
    obtain ⟨gaps, s'', t', piece?', _, _, hgaps, hs'', hstep', hpushed, hpieces, htrails⟩ :=
      h.exists_step htable hblanks htab none hway hs hne hstep rfl rfl ht hrest hu hkeeps
    cases hpieces
    obtain ⟨pieces', u', hrun', hu', hmore⟩ := ih hpushed (hway.step none hnumbered hs hstep) hu
      (hkeeps.step none hs hway.stacked hne hstep rfl rfl hrest)
    exact ⟨gaps ++ pieces', u', hgaps.trans (.quiet hs'' hstep' hrun'), hu', htrails pieces' hmore⟩
  | @piece s t v u piece pieces hs hstep hsettles hrest ih =>
    by_cases hnil : s.rest = []
    · have hmodes := (Run.piece hs hstep hsettles hrest).modes_of_rest_nil hu hs hnil
      obtain ⟨rfl, hpiece⟩ :=
        Prod.mk.inj ((step_of_rest_nil (.ofText tabWidth text) hnil).symm.trans hstep)
      have hend := finish_of_modes_nil (.ofText tabWidth text) hmodes
      obtain rfl := Except.ok.inj (hend.symm.trans (Option.some.inj hpiece))
      obtain ⟨rfl, -⟩ := hrest.eq_of_isDone hsettles.same.2.2
      obtain ⟨piece', hrun', hpieces⟩ := h.exists_end hs hnil hmodes table'
      exact ⟨[piece'], _, hrun', rfl, .cons hpieces (.inr (.inr rfl)) .nil⟩
    · have hv := hsettles.same.2.2.trans (isDone_of_step hs hnil hstep)
      obtain ⟨gaps, s'', t', piece?', columns', columns'', hgaps, hs'', hstep', hpushed, hpieces,
        htrails⟩ := h.exists_step htable hblanks htab (some piece) hway hs hnil hstep
          hsettles.same.1 hsettles.position_eq hv hrest hu hkeeps
      cases piece?' with
      | none => cases hpieces
      | some piece' =>
      obtain ⟨hpiece⟩ := hpieces
      have hindent (hkind : piece.kind = .token .attributeName) :
          table'.indentOf piece'.span.line =
            (LineTable.ofText tabWidth text).indentOf piece.span.line +
              indentWidth tabWidth blanks := by
        obtain ⟨line, hline, hfilled⟩ :=
          hway.stands.exists_line_of_attributeName hs hnil hstep hkind tabWidth
        have hsame : piece'.span.line = piece.span.line := hpiece.line
        rw [hsame]
        exact htable.indentOf_eq hblanks hline hfilled
      obtain ⟨v', hsettles', hmemories⟩ :=
        Shift.exists_settles hpushed.memories hpiece hsettles hindent
      have hpushed' := hpushed.of_settles hsettles hsettles' hmemories
      obtain ⟨pieces', u', hrun', hu', hmore⟩ := ih hpushed'
        ((hway.step (some piece) hnumbered hs hstep).settles hsettles) hu
        (hkeeps.step (some piece) hs hway.stacked hnil hstep hsettles.position_eq hsettles.same.1
          hrest)
      exact ⟨gaps ++ (piece' :: pieces'), u', hgaps.trans (.piece hs'' hstep' hsettles' hrun'), hu',
        htrails pieces' hmore⟩

end Runs

end Scan

end BlockLexer
