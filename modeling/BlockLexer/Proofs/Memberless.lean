import BlockLexer.Proofs.Blanks
import BlockLexer.Proofs.Finished
import BlockLexer.Proofs.Twins

/-!
# Blocks without members

A block remembers the indentation that its members need.  Where no member comes any more, it
makes no difference what the block remembers.

* `IsClosing` is a text that begins with the word `end`, and `Memberless` one that comes to such
  a word, or to its end, before there is a member.
* `Scan.BehindHeader` is a scan with no header on its line.
* `Scan.exists_gap_step`: the blocks have no influence on the step over a gap.
* `Scan.Run.of_memberless`: where no member comes, a run does not depend on what the innermost
  block remembers of its members.
-/

namespace BlockLexer

open Text Pattern Lexeme

/-! ## The word `end` -/

section Closing

variable {word rest cs left : List Char} {rule : Rule} {m : Match}

theorem isIdentifier_of_endName (h : equalsCaseless word endName = true) :
    isIdentifier word = true := by
  have halpha {c d : Char} (hc : c.toLower = d) (hd : d.isAlpha = true) : startsName c = true :=
    startsName_of_toLower (by rw [hc]; exact hd)
  have hmap : word.map Char.toLower = ['e', 'n', 'd'] := of_decide_eq_true h
  obtain ⟨a, more, rfl, ha, hmore⟩ := List.map_eq_cons_iff.1 hmap
  obtain ⟨b, more, rfl, hb, hmore⟩ := List.map_eq_cons_iff.1 hmore
  obtain ⟨c, more, rfl, hc, hmore⟩ := List.map_eq_cons_iff.1 hmore
  obtain rfl := List.map_eq_nil_iff.1 hmore
  simp [isIdentifier, halpha ha rfl, continuesName_of_startsName (halpha hb rfl),
    continuesName_of_startsName (halpha hc rfl)]

theorem isReserved_of_endName (h : equalsCaseless word endName = true) : isReserved word = true := by
  have hmap : word.map Char.toLower = ['e', 'n', 'd'] := of_decide_eq_true h
  rw [isReserved, hmap]
  rfl

theorem length_of_endName (h : equalsCaseless word endName = true) : word.length = 3 := by
  have hmap : word.map Char.toLower = ['e', 'n', 'd'] := of_decide_eq_true h
  simpa using congrArg List.length hmap

/-- A line that begins with the word `end` goes on with a character of no name, whatever follows
it. -/
theorem Line.exists_word_of_isEnd {line : Line} {more : List Char} (h : line.isEnd = true)
    (hmore : Stops continuesName more) :
    ∃ word rest, line.chars.dropWhile Text.isBlank ++ more = word ++ rest ∧
      equalsCaseless word endName = true ∧ Stops continuesName rest := by
  obtain ⟨hword, hnext⟩ := Bool.and_eq_true_iff.1 h
  obtain ⟨spaces, hspaces, -, hcontent⟩ := line.exists_content_append
  have htail := stops_dropWhile (· ≠ ';') (line.chars.dropWhile Text.isBlank)
  generalize (line.chars.dropWhile Text.isBlank).dropWhile (· ≠ ';') = tail at hcontent htail
  have hbehind : Stops continuesName (line.content.drop 3) := by
    intro c hc
    cases hdrop : line.content.drop 3 with
    | nil =>
      rw [hdrop] at hc
      cases hc
    | cons d behind =>
      rw [hdrop] at hc hnext
      cases hc
      simpa using hnext
  have hgap : Stops continuesName spaces := by
    intro c hc
    rw [← Bool.not_eq_true]
    intro hname
    have hspace := hspaces c (List.mem_of_mem_head? hc)
    rw [not_isSpace_of_continuesName hname] at hspace
    cases hspace
  have hremark : Stops continuesName tail := by
    intro c hc
    obtain rfl : c = ';' := by simpa using htail c hc
    rfl
  refine ⟨line.content.take 3, line.content.drop 3 ++ (spaces ++ (tail ++ more)), ?_, hword,
    hbehind.append (hgap.append (hremark.append hmore))⟩
  rw [hcontent, ← List.append_assoc (line.content.take 3), List.take_append_drop]
  simp only [List.append_assoc]

/-- A text that begins with the word `end`, behind blanks. -/
def IsClosing (cs : List Char) : Prop :=
  ∃ blanks word rest, cs = blanks ++ (word ++ rest) ∧ (∀ c ∈ blanks, isBlank c = true) ∧
    equalsCaseless word endName = true ∧ Stops continuesName rest

/-- A line that begins with the word `end` is such a text. -/
theorem Line.isClosing_of_isEnd {line : Line} (h : line.isEnd = true) (more : List Char) :
    IsClosing (line.chars ++ '\n' :: more) := by
  have hmore : Stops continuesName ('\n' :: more) := stops_cons rfl
  obtain ⟨word, rest, hcut, hword, hrest⟩ := exists_word_of_isEnd h hmore
  refine ⟨line.chars.takeWhile Text.isBlank, word, rest, ?_,
    fun c hc => List.mem_takeWhile_imp hc, hword, hrest⟩
  rw [← hcut, ← List.append_assoc, List.takeWhile_append_dropWhile]

/-- In a block no rule but that of blanks takes the blanks in front of the word `end`. -/
theorem Rule.eq_blanks_of_closing {blanks : List Char} (hrule : rule ∈ Mode.block.rules)
    (hblanks : ∀ c ∈ blanks, isBlank c = true) (hne : blanks ≠ [])
    (hword : equalsCaseless word endName = true)
    (hmatch : rule.match? (blanks ++ (word ++ rest)) = some m) :
    rule = .blanks ∧ m.lexeme = blanks := by
  obtain ⟨first, more, rfl, hfirst⟩ :=
    exists_cons_of_isIdentifier (isIdentifier_of_endName hword)
  have hstop : Stops isBlank (first :: more ++ rest) :=
    stops_cons (not_isBlank_of_startsName first hfirst)
  have hnone (lead : Rule) (hlead : lead = .directive ∨ lead = .comment) :
      lead.match? (blanks ++ (first :: more ++ rest)) = none := by
    rcases hlead with rfl | rfl
    · have hdirective : Lexeme.directive (blanks ++ (first :: more ++ rest)) = none := by
        rw [Option.eq_none_iff_forall_ne_some]
        intro cut hcut
        obtain ⟨c, behind, hdrop, hc⟩ := exists_of_directive hcut
        rw [List.dropWhile_append_of_pos hblanks, List.cons_append,
          List.dropWhile_cons_of_neg (by simp [not_isBlank_of_startsName first hfirst])] at hdrop
        obtain ⟨rfl, -⟩ := List.cons.inj hdrop
        have hmap : (first :: more).map Char.toLower = ['e', 'n', 'd'] := of_decide_eq_true hword
        have he := hc.symm.trans (List.cons.inj hmap).1
        cases he
      exact Match.ofPattern_eq_none hdirective
    · refine Match.ofPattern_eq_none ?_
      rw [comment_append_blanks hblanks, comment_eq_none hstop (stops_cons ?_)]
      · rfl
      · exact eq_false_of_startsName hfirst rfl
  obtain ⟨c, behind, rfl⟩ := List.exists_cons_of_ne_nil hne
  have hc := hblanks c List.mem_cons_self
  by_cases htakes : rule.takesBlank = true
  · cases rule with
    | directive => cases (hnone .directive (.inl rfl)).symm.trans hmatch
    | comment => cases (hnone .comment (.inr rfl)).symm.trans hmatch
    | blanks =>
      obtain ⟨left', hcut, -⟩ := Match.exists_append_of_ofPattern (isCut_many1 _) hmatch
      obtain ⟨-, hpair⟩ := Option.ite_none_left_eq_some.1 hcut
      obtain ⟨hlexeme, -⟩ := Prod.mk.inj (Option.some.inj hpair)
      exact ⟨rfl, hlexeme.symm.trans (takeWhile_append hblanks hstop).1⟩
    | bodyLine | stringText => simp [Mode.rules] at hrule
    | _ => cases htakes
  · have hfalse : rule.takesBlank = false := by simpa using htakes
    rw [List.cons_append, Rule.match?_of_blank hc hfalse] at hmatch
    cases hmatch

/-- Of the rules of a block only those of names match the word `end`. -/
theorem Rule.cases_of_endName (hrule : rule ∈ Mode.block.rules)
    (hword : equalsCaseless word endName = true) (hmatch : rule.match? (word ++ rest) = some m) :
    rule = .blockEnd ∨ rule = .attributeName ∨ rule = .className ∨ rule = .instanceName := by
  have hname := isIdentifier_of_endName hword
  obtain ⟨hcomment, hmarker, hblanks, hnewline⟩ := Mode.match?_name rest hname
  cases rule with
  | blockEnd => exact .inl rfl
  | attributeName => exact .inr (.inl rfl)
  | className => exact .inr (.inr (.inl rfl))
  | instanceName => exact .inr (.inr (.inr rfl))
  | comment => cases hcomment.symm.trans hmatch
  | bodyMarker => cases hmarker.symm.trans hmatch
  | blanks => cases hblanks.symm.trans hmatch
  | headerNewline => cases hnewline.symm.trans hmatch
  | directive =>
    obtain ⟨left, hcut, -⟩ := Match.exists_append_of_ofPattern isCut_directive hmatch
    obtain ⟨c, more, hdrop, hc⟩ := exists_of_directive hcut
    obtain ⟨first, behind, rfl, hfirst⟩ := exists_cons_of_isIdentifier hname
    rw [List.cons_append,
      List.dropWhile_cons_of_neg (by simp [not_isBlank_of_startsName first hfirst])] at hdrop
    obtain ⟨rfl, -⟩ := List.cons.inj hdrop
    have hmap : (first :: behind).map Char.toLower = ['e', 'n', 'd'] := of_decide_eq_true hword
    have he := hc.symm.trans (List.cons.inj hmap).1
    cases he
  | newline | strayEnd | continuation | openString | imaginary | float | hex | octal | binary
  | integer | identifier | bracket | expressionNewline | operator | bodyLine | escape
  | closeString | stringText | loneQuote => simp [Mode.rules] at hrule

end Closing

/-- The word `end` is taken as a whole, if it is a word by itself. -/
theorem Lexeme.endWord_of_endName {word rest : List Char} (hword : equalsCaseless word endName = true)
    (hnext : Stops isWord rest) : endWord (word ++ rest) = some (word, rest) := by
  have hlength := length_of_endName hword
  have htake : wordCaseless ['e', 'n', 'd'] (word ++ rest) = some (word, rest) := by
    unfold wordCaseless
    rw [show ['e', 'n', 'd'].length = word.length from hlength.symm, List.take_left,
      List.drop_left]
    exact if_pos hword
  have hbefore : notBefore isWord rest = some ([], rest) := by
    cases rest with
    | nil => rfl
    | cons c rest => exact if_neg (by simpa using hnext c rfl)
  have hcut := seq_eq_some htake hbefore
  rwa [List.append_nil] at hcut

/-- In a block it is the end of the block there. -/
theorem Mode.select_of_endName {word rest : List Char} (hword : equalsCaseless word endName = true)
    (hnext : Stops isWord rest) : ∃ m, Mode.block.select (word ++ rest) = some (.blockEnd, m) := by
  have hmatch : ∃ m, Rule.match? .blockEnd (word ++ rest) = some m ∧ m.lexeme ≠ [] := by
    simp only [Rule.match?, Match.ofGroup, endWord_of_endName hword hnext, Pattern.many,
      Pattern.nothing]
    refine ⟨_, rfl, ?_⟩
    intro hnil
    have hword' := (List.append_eq_nil_iff.1 (List.append_eq_nil_iff.1 hnil).1).1
    exact ne_nil_of_isIdentifier (isIdentifier_of_endName hword) hword'
  obtain ⟨m, hmatch, hne⟩ := hmatch
  refine ⟨m, Mode.select_of_split [.directive, .comment] rfl (fun other hother => ?_) hmatch hne⟩
  by_contra hsome
  obtain ⟨m', hm'⟩ := Option.ne_none_iff_exists'.1 hsome
  rcases List.mem_pair.1 hother with rfl | rfl
  all_goals rcases Rule.cases_of_endName (by simp [Mode.rules]) hword hm' with h | h | h | h <;> cases h

/-- What a rule between blocks matches is matched by a rule of a block as well. -/
theorem Rule.exists_of_default {cs : List Char} {rule : Rule} {m : Match}
    (hrule : rule ∈ Mode.default.rules) (hmatch : rule.match? cs = some m) :
    ∃ other m', other ∈ Mode.block.rules ∧ other.match? cs = some m' := by
  cases rule with
  | newline => exact ⟨.headerNewline, m, by decide, hmatch⟩
  | strayEnd =>
    obtain ⟨left, hcut, -⟩ := Match.exists_append_of_ofPattern isCut_endWord hmatch
    have hend : ∃ m', Rule.match? .blockEnd cs = some m' := by
      simp only [Rule.match?, Match.ofGroup, hcut, Pattern.many, Pattern.nothing]
      exact ⟨_, rfl⟩
    obtain ⟨m', hend⟩ := hend
    exact ⟨.blockEnd, m', by decide, hend⟩
  | directive | comment | blanks | className => exact ⟨_, m, by decide, hmatch⟩
  | _ => simp [Mode.rules] at hrule

/-- Neither between blocks nor in a block does a rule take a letter that stands in no name. -/
theorem Mode.select_eq_none_of_isWord {mode : Mode} {c : Char}
    (hmode : mode = .default ∨ mode = .block) (hc : isWord c = true)
    (hname : continuesName c = false) (more : List Char) : mode.select (c :: more) = none := by
  have hne {d : Char} (hd : isWord d = false) : c ≠ d := by
    rintro rfl
    cases hc.symm.trans hd
  have hblank : isBlank c = false := by simp [isBlank, hne (d := ' ') rfl, hne (d := '\t') rfl]
  have hstop {d : Char} (hd : isWord d = false) : Stops (· = d) (c :: more) :=
    stops_cons (by simpa using hne hd)
  rw [Option.eq_none_iff_forall_ne_some]
  rintro ⟨rule, m⟩ hselect
  obtain ⟨rule, m, hrule, hmatch⟩ :
      ∃ rule m, rule ∈ Mode.block.rules ∧ rule.match? (c :: more) = some m := by
    have hrule := Scan.mem_rules_of_select hselect
    rcases hmode with rfl | rfl
    · exact Rule.exists_of_default hrule (Mode.match?_of_select hselect)
    · exact ⟨rule, m, hrule, Mode.match?_of_select hselect⟩
  rcases Rule.exists_first_of_match? hrule hmatch with
    (rfl | rfl | rfl) | ⟨d, behind, hdrop, hd⟩
  · cases (Match.ofPattern_eq_none (comment_eq_none (stops_cons hblank) (hstop rfl))).symm.trans hmatch
  · cases (Match.ofPattern_eq_none (many1_of_stops (stops_cons hblank))).symm.trans hmatch
  · cases (Match.ofPattern_eq_none (one_eq_none (hstop rfl))).symm.trans hmatch
  · rw [List.dropWhile_cons_of_neg (by simp [hblank])] at hdrop
    obtain ⟨rfl, -⟩ := List.cons.inj hdrop
    rcases hd with hstart | ⟨rfl, -⟩
    · rw [continuesName_of_startsName hstart] at hname
      cases hname
    · cases hc

/-! ## Texts -/

/-- A text that comes to its end, or to the word `end`, before there is a member of a block. -/
def Memberless (cs : List Char) : Prop :=
  ∃ lines rest, cs = unlines lines ++ rest ∧ (∀ line ∈ lines, '\n' ∉ line ∧ IsIdle line) ∧
    (rest = [] ∨ IsClosing rest)

/-- A rule of a block takes a gap of such a text, or the text begins with the word `end`. -/
theorem Memberless.cases_of_match? {cs left : List Char} {rule : Rule} {m : Match}
    (h : Memberless cs) (hcs : cs ≠ []) (hrule : rule ∈ Mode.block.rules)
    (hmatch : rule.match? cs = some m) (hleft : cs = m.lexeme ++ left) :
    (rule.IsGap ∧ Memberless left) ∨
      ∃ word rest, cs = word ++ rest ∧ equalsCaseless word endName = true ∧
        Stops continuesName rest := by
  obtain ⟨lines, rest, rfl, hlines, hrest⟩ := h
  cases lines with
  | cons line lines =>
    obtain ⟨⟨hline, hidle⟩, hmore⟩ := List.forall_mem_cons.1 hlines
    rw [unlines_cons, List.append_assoc, List.cons_append] at hmatch hleft
    have hgap := hidle.of_append_lineFeed.rule_of_match? hrule hmatch
    refine .inl ⟨hgap, ?_⟩
    rcases hgap.cases_of_match? hline hmatch hleft with rfl | ⟨line', rfl, hline', hidle'⟩
    · exact ⟨lines, rest, rfl, hmore, hrest⟩
    · refine ⟨line' :: lines, rest, ?_, List.forall_mem_cons.2 ⟨⟨hline', hidle' hidle⟩, hmore⟩, hrest⟩
      rw [unlines_cons, List.append_assoc, List.cons_append]
  | nil =>
    rcases hrest with rfl | ⟨blanks, word, behind, rfl, hblanks, hword, hstops⟩
    · exact absurd rfl hcs
    · rw [unlines_nil, List.nil_append] at hmatch hleft ⊢
      by_cases hne : blanks = []
      · subst hne
        exact .inr ⟨word, behind, rfl, hword, hstops⟩
      · obtain ⟨rfl, hlexeme⟩ := Rule.eq_blanks_of_closing hrule hblanks hne hword hmatch
        rw [hlexeme, List.append_cancel_left_eq] at hleft
        refine .inl ⟨.inr (.inl rfl), [], left, rfl, by simp, .inr ?_⟩
        exact ⟨[], word, behind, hleft.symm, by simp, hword, hstops⟩

/-- Behind a line no member comes if the next line with content is an `end`, or there is none. -/
theorem memberless_of_nextContent {tabWidth : Nat} {text : List Char} {number : Nat}
    (h : ∀ line ∈ (LineTable.ofText tabWidth text).nextContentAfter number, line.isEnd = true) :
    Memberless (unlines ((splitLines text).drop number)) := by
  rw [← LineTable.map_chars_ofText tabWidth text, ← List.map_drop]
  have hfree : ∀ line ∈ (LineTable.ofText tabWidth text).lines.drop number, '\n' ∉ line.chars := by
    intro line hline
    have hchars := List.mem_map_of_mem (f := Line.chars) (List.mem_of_mem_drop hline)
    rw [LineTable.map_chars_ofText] at hchars
    exact lineFeed_not_mem_of_mem_splitLines hchars
  unfold LineTable.nextContentAfter at h
  generalize (LineTable.ofText tabWidth text).lines.drop number = lines at h hfree ⊢
  have idle {above : List Line} (hfree : ∀ line ∈ above, '\n' ∉ line.chars)
      (hidle : ∀ line ∈ above, line.hasContent = false) :
      ∀ chars ∈ above.map Line.chars, '\n' ∉ chars ∧ IsIdle chars := by
    intro chars hchars
    obtain ⟨line, hline, rfl⟩ := List.mem_map.1 hchars
    exact ⟨hfree line hline, Line.isIdle_of_hasContent (hidle line hline)⟩
  cases hfound : lines.find? Line.hasContent with
  | none =>
    refine ⟨lines.map Line.chars, [], (List.append_nil _).symm, idle hfree fun line hline => ?_,
      .inl rfl⟩
    simpa using List.find?_eq_none.1 hfound line hline
  | some line =>
    obtain ⟨-, above, below, rfl, habove⟩ := List.find?_eq_some_iff_append.1 hfound
    refine ⟨above.map Line.chars, line.chars ++ '\n' :: unlines (below.map Line.chars), ?_,
      idle (fun line hline => hfree line (List.mem_append_left _ hline)) fun line hline => ?_,
      .inr (Line.isClosing_of_isEnd (h line hfound) _)⟩
    · rw [List.map_append, List.map_cons, ← unlines_cons]
      exact List.flatMap_append
    · simpa using habove line hline

/-! ## Headers -/

/-- Behind some characters the first column is that of a later line. -/
theorem Position.line_lt_of_column {p : Position} {cs : List Char} (hp : 0 < p.column)
    (hne : cs ≠ []) (h : (p.after cs).column = 1) : p.line < (p.after cs).line := by
  rcases List.eq_nil_or_concat cs with rfl | ⟨before, c, rfl⟩
  · exact absurd rfl hne
  · have hpos := column_pos hp before
    rw [List.concat_eq_append, after_append] at h
    rw [line_after, List.concat_eq_append, List.count_append]
    change ((p.after before).next c).column = 1 at h
    unfold next at h
    split at h
    · next hc =>
      rw [hc, List.count_singleton_self]
      omega
    · dsimp only at h
      omega

/-- Whatever stands behind a header, only what the block remembers of its members depends on it. -/
theorem BlockStack.expectMembers_cases (next next' : Option (Nat × Bool)) (blocks : BlockStack) :
    blocks.expectMembers next' = blocks.expectMembers next ∨
      ∃ frame frame' outer, blocks.expectMembers next = frame :: outer ∧
        blocks.expectMembers next' = frame' :: outer ∧ frame'.owner = frame.owner ∧
        frame'.headerIndent = frame.headerIndent := by
  cases blocks with
  | nil => exact .inl rfl
  | cons frame outer =>
    by_cases hrequired : frame.required.isSome = true
    · simp only [expectMembers, if_pos hrequired, true_or]
    · simp only [expectMembers, if_neg hrequired]
      exact .inr ⟨_, _, outer, rfl, rfl, rfl, rfl⟩

namespace Scan

variable {table : LineTable} {s t u v : Scan} {pieces moved : List Piece} {rule : Rule} {m : Match}

/-- No header is on the line of the scan. -/
def BehindHeader (s : Scan) : Prop :=
  ∀ token ∈ Shift.header s.last, token.2 < s.position.line

theorem BehindHeader.not_header (h : BehindHeader s) :
    s.followsHeader = false ∧ s.expectsName = false := by
  unfold BehindHeader Shift.header at h
  unfold followsHeader expectsName
  rcases hlast : s.last with - | ⟨kind, line⟩
  · exact ⟨rfl, rfl⟩
  · rw [hlast] at h
    dsimp only at h ⊢
    by_cases hkind : kind = .className ∨ kind = .instanceName
    · have hline := h (kind, line) (by simp [hkind])
      have hne : line ≠ s.position.line := Nat.ne_of_lt hline
      simp [hne]
    · rw [not_or] at hkind
      simp [hkind]

/-- Behind the line of a header a scan is behind the header. -/
theorem behindHeader_of_followsHeader (h : s.followsHeader = true) (hlast : t.last = s.last)
    (hline : s.position.line < t.position.line) : BehindHeader t := by
  unfold followsHeader at h
  unfold BehindHeader Shift.header
  rw [hlast]
  rcases hs : s.last with - | ⟨kind, line⟩
  · rintro _ ⟨⟩
  · rw [hs] at h
    simp only [Bool.and_eq_true, decide_eq_true_eq] at h
    intro token htoken
    dsimp only at htoken
    split at htoken
    · obtain rfl := Option.some.inj htoken
      exact h.2 ▸ hline
    · cases htoken

theorem BehindHeader.of_last (h : BehindHeader s) (hlast : t.last = s.last)
    (hline : s.position.line ≤ t.position.line) : BehindHeader t := by
  intro token htoken
  rw [hlast] at htoken
  exact Nat.lt_of_lt_of_le (h token htoken) hline

/-- What has been read behind a header keeps the scan behind it: it is on the line of the header
or a later one, and in the first column it is on a later one. -/
def PassesHeader (s : Scan) : Prop :=
  0 < s.position.column ∧ ∀ token ∈ Shift.header s.last, token.2 ≤ s.position.line ∧
    (s.position.column = 1 → token.2 < s.position.line)

theorem passesHeader_of_step (piece? : Option Piece) (hs : s.isDone = false) (hrest : s.rest ≠ [])
    (hstep : s.step table = (t, piece?.map Except.ok)) (h : PassesHeader s) : PassesHeader t := by
  obtain ⟨hpos, hpast⟩ := h
  rcases exists_of_step piece? hstep with ⟨hnil, -⟩ | ⟨rule, m, a, left, hselect, -, -, -, -, hmoved⟩
  · exact absurd hnil hrest
  have hline : s.position.line ≤ t.position.line := line_le_of_step piece? hstep
  have hcolumn : t.position.column = 1 → s.position.line < t.position.line := by
    rw [hmoved]
    exact Position.line_lt_of_column hpos (Mode.select_lexeme_ne_nil hselect)
  have still (hlast : t.last = s.last) : PassesHeader t := by
    refine ⟨hmoved ▸ Position.column_pos hpos _, fun token htoken => ?_⟩
    rw [hlast] at htoken
    obtain ⟨hle, -⟩ := hpast token htoken
    exact ⟨Nat.le_trans hle hline, fun hfirst => Nat.lt_of_le_of_lt hle (hcolumn hfirst)⟩
  cases piece? with
  | none => exact still (effect_of_step_quiet hstep).2
  | some piece =>
    rcases effect_of_step hs hstep with ⟨-, -, rfl⟩ | ⟨-, -, hlast⟩
    · exact ⟨hpos, hpast⟩
    · cases hnoted : notedKind? piece.kind with
      | none =>
        rw [hnoted] at hlast
        exact still hlast
      | some kind =>
        rw [hnoted, Option.elim_some] at hlast
        refine ⟨hmoved ▸ Position.column_pos hpos _, fun token htoken => ?_⟩
        rw [hlast] at htoken
        unfold Shift.header at htoken
        dsimp only at htoken
        split at htoken
        · next hheader =>
          obtain rfl := Option.some.inj htoken
          have hbody : piece.kind ≠ .token .body := by
            intro hbody
            rw [hbody] at hnoted
            obtain rfl : Kind.body = kind := Option.some.inj hnoted
            simp at hheader
          obtain ⟨lexeme, more, hcuts, -⟩ := exists_cuts_of_step hstep hbody
          have hspan : piece.span.line = s.position.line := congrArg Span.line hcuts.span
          rw [hspan]
          exact ⟨hline, hcolumn⟩
        · cases htoken

/-- In the first column a scan is behind all headers. -/
theorem behindHeader_of_run (hrun : Run table s pieces t) (hs : s.isDone = false)
    (hrest : t.rest ≠ []) (h : PassesHeader s) (hcolumn : t.position.column = 1) :
    BehindHeader t := by
  have hleft {s t : Scan} {pieces : List Piece} (hrun : Run table s pieces t) (hrest : t.rest ≠ []) :
      s.rest ≠ [] := by
    obtain ⟨passed, hpassed, -⟩ := hrun.exists_passed
    exact fun hnil => hrest (List.append_eq_nil_iff.1 (hpassed.symm.trans hnil)).2
  induction hrun with
  | refl s => exact fun token htoken => (h.2 token htoken).2 hcolumn
  | quiet _ hstep hmore ih =>
    exact ih ((step_quiet table hstep).2.trans hs) hrest
      (passesHeader_of_step none hs (hleft (.quiet hs hstep hmore) hrest) hstep h) hcolumn
  | piece _ hstep hsettles hmore ih =>
    have hne := hleft (.piece hs hstep hsettles hmore) hrest
    refine ih (hsettles.same.2.2.trans (isDone_of_step hs hne hstep)) hrest ?_ hcolumn
    have hnext := passesHeader_of_step (some _) hs hne hstep h
    unfold PassesHeader at hnext ⊢
    rwa [hsettles.position_eq, hsettles.same.2.1]

/-- A scan with other blocks. -/
def withBlocks (blocks : BlockStack) (s : Scan) : Scan :=
  { s with blocks }

/-- The later stages leave a gap alone. -/
theorem Settles.eq_of_gap {piece : Piece} (h : Settles table piece s t)
    (hkind : piece.kind = .token .blanks ∨ piece.kind = .token .newline) : t = s := by
  refine h.eq_of_other ?_ ?_
  all_goals rcases hkind with hgap | hgap <;> rw [hgap] <;> simp

/-- The step over a gap, which the blocks have no influence on. -/
structure GapStep (table : LineTable) (m : Match) (s t : Scan) (piece? : Option Piece) : Prop where
  step : ∀ blocks, (s.withBlocks blocks).step table = (t.withBlocks blocks, piece?.map Except.ok)
  gap : ∀ piece ∈ piece?, piece.kind = .token .blanks ∨ piece.kind = .token .newline
  modes : t.modes = s.modes
  last : t.last = s.last
  afterBody : t.afterBody = s.afterBody
  isDone : t.isDone = s.isDone
  moves : s.Moves t m

/-- Gaps are stepped over whatever the blocks are, unless a header is on the line. -/
theorem exists_gap_step (table : LineTable) (hselect : s.mode.select s.rest = some (rule, m))
    (hrule : rule.IsGap) (hheader : s.followsHeader = false) :
    ∃ t piece?, t.blocks = s.blocks ∧ GapStep table m s t piece? := by
  let event := Event.ruleMatched rule s.mode s.position.line s.position.column
  have quiet (hact : ∀ s : Scan, s.followsHeader = false → s.act table rule m = (s, .ok none)) :
      ∃ t piece?, t.blocks = s.blocks ∧ GapStep table m s t piece? := by
    refine ⟨(s.report event).advance m.lexeme, none, rfl, fun blocks => ?_, by simp, rfl, rfl, rfl, rfl,
      rfl, rfl⟩
    exact step_of_select (s := s.withBlocks blocks) hselect
      (hact ((s.withBlocks blocks).report event) hheader)
  have yields {kind : Kind} (hkind : kind = .blanks ∨ kind = .newline)
      (hact : ∀ s : Scan, s.followsHeader = false →
        s.act table rule m = (s, .ok (some (s.token kind .nothing m.lexeme)))) :
      ∃ t piece?, t.blocks = s.blocks ∧ GapStep table m s t piece? := by
    have hnote (a : Scan) : a.note (s.token kind .nothing m.lexeme) = a := by
      rcases hkind with rfl | rfl <;> rfl
    refine ⟨(s.report event).advance m.lexeme, some (s.token kind .nothing m.lexeme), rfl,
      fun blocks => ?_, ?_, rfl, rfl, rfl, rfl, rfl, rfl⟩
    · have hstep := step_of_select (s := s.withBlocks blocks) hselect
        (hact ((s.withBlocks blocks).report event) hheader)
      rw [Option.elim_some] at hstep
      exact hstep.trans (congrArg (·, _) (hnote _))
    · rintro _ ⟨⟩
      rcases hkind with rfl | rfl
      · exact .inl rfl
      · exact .inr rfl
  rcases hrule with rfl | rfl | rfl
  · exact quiet fun _ _ => rfl
  · exact yields (.inl rfl) fun _ _ => rfl
  · refine yields (.inr rfl) fun s hheader => ?_
    exact (Accepts.memberNewline hheader).act_eq

namespace GapStep

variable {piece? : Option Piece}

theorem settles {piece : Piece} (h : GapStep table m s t (some piece)) (v : Scan) :
    Settles table piece v v := by
  refine .other ?_ ?_
  all_goals rcases h.gap piece rfl with hkind | hkind <;> rw [hkind] <;> simp

theorem move (h : GapStep table m s t piece?) (hs : s.isDone = false) (blocks : BlockStack) :
    Move table (s.withBlocks blocks) piece?.toList (t.withBlocks blocks) := by
  cases piece? with
  | none => exact .quiet hs (h.step blocks)
  | some piece => exact .piece hs (h.step blocks) (h.settles _)

/-- A move from there is this step. -/
theorem eq_of_move (h : GapStep table m s t piece?) (hblocks : t.blocks = s.blocks)
    (hmove : Move table s moved v) : moved = piece?.toList ∧ v = t := by
  have hstep : s.step table = (t.withBlocks s.blocks, piece?.map Except.ok) := h.step s.blocks
  rw [← hblocks] at hstep
  obtain ⟨hmoved, hquiet, hsettles⟩ := hmove.of_step piece? hstep
  refine ⟨hmoved, ?_⟩
  cases piece? with
  | none => exact hquiet rfl
  | some piece => exact (hsettles piece rfl).eq_of_gap (h.gap piece rfl)

end GapStep

/-! ## Moves -/

/-- The first move of a run to the end. -/
theorem Run.exists_move (hrun : Run table s pieces u) (hu : u.isDone = true)
    (hs : s.isDone = false) :
    ∃ moved v more, pieces = moved ++ more ∧ Move table s moved v ∧ Run table v more u := by
  induction hrun using Run.induction_on_moves with
  | refl => cases hs.symm.trans hu
  | @move s v moved more hmove hmore _ => exact ⟨moved, v, more, rfl, hmove, hmore⟩

/-- A move selects a rule that acts, as long as something is left to read. -/
theorem Move.exists_of_rest (hmove : Move table s moved v) (hrest : s.rest ≠ []) :
    ∃ rule m a piece?, s.mode.select s.rest = some (rule, m) ∧
      (s.report (.ruleMatched rule s.mode s.position.line s.position.column)).act table rule m =
        (a, .ok piece?) ∧
      v.modes = a.modes ∧ s.rest = m.lexeme ++ v.rest ∧
      v.position = s.position.after m.lexeme := by
  cases hmove with
  | quiet hs hstep =>
    rcases exists_of_step none hstep with ⟨hnil, -⟩ | ⟨rule, m, a, left, hselect, hleft, hact,
      hmodes, rfl, hmoved⟩
    · exact absurd hnil hrest
    · exact ⟨rule, m, a, none, hselect, hact, hmodes, hleft, hmoved⟩
  | piece hs hstep hsettles =>
    rcases exists_of_step (some _) hstep with ⟨hnil, -⟩ | ⟨rule, m, a, left, hselect, hleft, hact,
      hmodes, rfl, hmoved⟩
    · exact absurd hnil hrest
    · exact ⟨rule, m, a, some _, hselect, hact, hsettles.same.1.trans hmodes,
        hsettles.rest_eq.symm ▸ hleft, hsettles.position_eq.trans hmoved⟩

/-! ## The end of a block -/

/-- The name of a class goes as far as the word does. -/
theorem lexeme_eq_of_className {word rest : List Char} (hname : isIdentifier word = true)
    (hstops : Stops continuesName rest) (hmatch : Rule.match? .className (word ++ rest) = some m) :
    m.lexeme = word := by
  obtain ⟨left, hcut, -⟩ := Match.exists_append_of_ofPattern
    ((isCut_one _).seq (isCut_many _)) hmatch
  obtain ⟨first, behind, rfl, -⟩ := exists_cons_of_isIdentifier hname
  have hupper : isClassIdentifier (first :: behind) = true := by
    obtain ⟨x, -, between, hone, -⟩ := exists_of_seq_eq_some hcut
    have hfirst := (Option.ite_none_right_eq_some.1 hone).1
    simp only [isIdentifier, Bool.and_eq_true] at hname
    rw [isClassIdentifier, hfirst, hname.2]
    rfl
  exact (Prod.mk.inj (Option.some.inj (hcut.symm.trans (className_append hupper hstops)))).1

/-- The word `end` is no name of an attribute. -/
theorem isReserved_of_attributeName {word rest : List Char}
    (hword : equalsCaseless word endName = true) (hstops : Stops continuesName rest)
    (hmatch : Rule.match? .attributeName (word ++ rest) = some m) :
    isReserved m.groupText = true := by
  simp only [Rule.match?, Match.ofGroup, Pattern.nothing,
    name_append (isIdentifier_of_endName hword) hstops] at hmatch
  split at hmatch
  · cases hmatch
  · obtain rfl := Option.some.inj hmatch
    exact isReserved_of_endName hword

/-- Where no header is on the line, the name of a class opens a block. -/
theorem modes_of_className {piece? : Option Piece}
    (hact : s.act table .className m = (a, .ok piece?)) (hheader : s.followsHeader = false) :
    a.modes = .block :: s.modes := by
  cases accepts_of_act hact with
  | className => rfl
  | capitalName hheader' => cases hheader'.symm.trans hheader

/-- A scan that comes to the end of its text takes the word `end` for the end of the block. -/
theorem Run.selects_blockEnd {word rest : List Char} (hrun : Run table s pieces u)
    (hu : u.isDone = true) (hs : s.isDone = false) (hmode : s.mode = .block)
    (hheader : BehindHeader s) (hrest : s.rest = word ++ rest)
    (hword : equalsCaseless word endName = true) (hstops : Stops continuesName rest) :
    ∃ m, s.mode.select s.rest = some (.blockEnd, m) := by
  obtain ⟨moved, v, more, rfl, hmove, hmore⟩ := hrun.exists_move hu hs
  have hname := isIdentifier_of_endName hword
  have hne : s.rest ≠ [] := by
    obtain ⟨first, behind, rfl, -⟩ := exists_cons_of_isIdentifier hname
    rw [hrest]
    exact List.cons_ne_nil _ _
  obtain ⟨rule, m, a, piece?, hselect, hact, hmodes, hleft, -⟩ := hmove.exists_of_rest hne
  have hmatch := Mode.match?_of_select hselect
  have hrule := mem_rules_of_select hselect
  rw [hmode] at hrule
  rw [hrest] at hmatch hleft
  rcases Rule.cases_of_endName hrule hword hmatch with rfl | rfl | rfl | rfl
  · exact ⟨m, hselect⟩
  · cases accepts_of_act hact with
    | attributeName hfree =>
      cases hfree.symm.trans (isReserved_of_attributeName hword hstops hmatch)
  · by_cases hnext : Stops isWord rest
    · rw [hmode, hrest]
      exact Mode.select_of_endName hword hnext
    · -- Behind the name of a class the scan is stuck.
      exfalso
      obtain ⟨c, behind, rfl, hc⟩ : ∃ c behind, rest = c :: behind ∧ isWord c = true := by
        cases rest with
        | nil => exact absurd stops_nil hnext
        | cons c behind =>
          refine ⟨c, behind, rfl, ?_⟩
          by_contra hnot
          exact hnext (stops_cons (by simpa using hnot))
      rw [lexeme_eq_of_className hname hstops hmatch, List.append_cancel_left_eq] at hleft
      have hv : v.mode = .block := by
        rw [mode, hmodes, modes_of_className hact hheader.not_header.1]
        rfl
      have hvne : v.rest ≠ [] := by simp [← hleft]
      obtain ⟨_, _, _, -, hmove', -⟩ := hmore.exists_move hu (hmove.isDone_of_rest hs hne)
      obtain ⟨_, _, _, _, hselect', -⟩ := hmove'.exists_of_rest hvne
      rw [hv, ← hleft, Mode.select_eq_none_of_isWord (.inr rfl) hc (hstops c rfl)] at hselect'
      cases hselect'
  · cases accepts_of_act hact with
    | instanceName hexpects => cases hexpects.symm.trans hheader.not_header.2

/-- The end of a block forgets what the block remembers of its members. -/
theorem Move.of_blockEnd {frame frame' : Frame} {outer : BlockStack} (hmove : Move table s moved v)
    (hselect : s.mode.select s.rest = some (.blockEnd, m)) (hblocks : s.blocks = frame :: outer)
    (howner : frame'.owner = frame.owner) (hindent : frame'.headerIndent = frame.headerIndent) :
    Move table (s.withBlocks (frame' :: outer)) moved v := by
  have same (piece? : Option Piece) {t : Scan}
      (hstep : s.step table = (t, piece?.map Except.ok)) :
      (s.withBlocks (frame' :: outer)).step table = (t, piece?.map Except.ok) := by
    rcases exists_of_step piece? hstep with ⟨hnil, -⟩ | ⟨rule, m', a, -, hselect', -, hact, -⟩
    · exact absurd hnil (Mode.ne_nil_of_select hselect)
    obtain ⟨rfl, rfl⟩ := Prod.mk.inj (Option.some.inj (hselect.symm.trans hselect'))
    have hact' : ((s.withBlocks (frame' :: outer)).report
        (.ruleMatched .blockEnd s.mode s.position.line s.position.column)).act table .blockEnd m =
          (a, .ok piece?) := by
      cases accepts_of_act hact with
      | blockEnd hsign hopen hhere =>
      obtain ⟨rfl, rfl⟩ := List.cons.inj (hblocks.symm.trans hopen)
      rw [← howner]
      exact Accepts.act_eq (s := (s.withBlocks (frame' :: outer)).report _)
        (.blockEnd hsign rfl (hindent.trans hhere))
    rw [step_of_select (s := s.withBlocks (frame' :: outer)) hselect hact', ← hstep,
      step_of_select hselect hact]
  cases hmove with
  | quiet hs hstep => exact .quiet hs (same none hstep)
  | piece hs hstep hsettles => exact .piece hs (same (some _) hstep) hsettles

/-- Where no member comes, a run to the end does not depend on what the innermost block
remembers of its members. -/
theorem Run.of_memberless {frame frame' : Frame} {outer : BlockStack} (hrun : Run table s pieces u)
    (hu : u.isDone = true) (hs : s.isDone = false) (hmode : s.mode = .block)
    (hheader : BehindHeader s) (hmemberless : Memberless s.rest) (hblocks : s.blocks = frame :: outer)
    (howner : frame'.owner = frame.owner) (hindent : frame'.headerIndent = frame.headerIndent) :
    Run table (s.withBlocks (frame' :: outer)) pieces u := by
  induction hrun using Run.induction_on_moves with
  | refl => cases hs.symm.trans hu
  | @move s v moved more hmove hmore ih =>
    have hne : s.rest ≠ [] := fun hnil => by
      have hmodes := (hmove.run.trans hmore).modes_of_rest_nil hu hs hnil
      rw [mode, hmodes] at hmode
      cases hmode
    have hv := hmove.isDone_of_rest hs hne
    obtain ⟨rule, m, a, piece?, hselect, hact, hmodes, hleft, -⟩ := hmove.exists_of_rest hne
    have hrule := mem_rules_of_select hselect
    rw [hmode] at hrule
    rcases hmemberless.cases_of_match? hne hrule (Mode.match?_of_select hselect) hleft with
      ⟨hgap, hmemberless'⟩ | ⟨word, rest, hrest, hword, hstops⟩
    · obtain ⟨t, piece?, hblocks', hstep⟩ :=
        exists_gap_step table hselect hgap hheader.not_header.1
      obtain ⟨rfl, rfl⟩ := hstep.eq_of_move hblocks' hmove
      have hmode' : v.mode = .block := by
        rw [mode, hstep.modes]
        exact hmode
      have hheader' : BehindHeader v := by
        refine hheader.of_last hstep.last ?_
        rw [hstep.moves.position, Position.line_after]
        exact Nat.le_add_right _ _
      exact (hstep.move hs _).run.trans (ih hv hmode' hheader' hmemberless' (hblocks'.trans hblocks))
    · obtain ⟨m', hend⟩ := (hmove.run.trans hmore).selects_blockEnd hu hs hmode hheader hrest hword
        hstops
      exact (hmove.of_blockEnd hend hblocks howner hindent).run.trans hmore

/-- So a scan yields the same up to the end, whatever the innermost block remembers. -/
theorem finishes_withBlocks_iff {frame frame' : Frame} {outer : BlockStack} (hs : s.isDone = false)
    (hmode : s.mode = .block) (hheader : BehindHeader s) (hmemberless : Memberless s.rest)
    (howner : frame'.owner = frame.owner) (hindent : frame'.headerIndent = frame.headerIndent) :
    Finishes table (s.withBlocks (frame :: outer)) pieces ↔
      Finishes table (s.withBlocks (frame' :: outer)) pieces := by
  constructor
  · rintro ⟨u, hrun, hu⟩
    exact ⟨u, Run.of_memberless (s := s.withBlocks (frame :: outer)) hrun hu hs hmode hheader
      hmemberless rfl howner hindent, hu⟩
  · rintro ⟨u, hrun, hu⟩
    exact ⟨u, Run.of_memberless (s := s.withBlocks (frame' :: outer)) hrun hu hs hmode hheader
      hmemberless rfl howner.symm hindent.symm, hu⟩

/-- The step over the end of the line of a header. -/
theorem step_of_header (table : LineTable)
    (hselect : s.mode.select s.rest = some (.headerNewline, m)) (hheader : s.followsHeader = true) :
    s.step table =
      (((s.report (.ruleMatched .headerNewline s.mode s.position.line s.position.column)).advance
          m.lexeme).withBlocks (s.blocks.expectMembers
            ((table.nextContentAfter s.position.line).map fun line => (line.indent, line.isEnd))),
        some (.ok (s.token .newline .nothing m.lexeme))) := by
  have hact (s : Scan) (hheader : s.followsHeader = true) : s.act table .headerNewline m =
      (s.withBlocks (s.blocks.expectMembers
        ((table.nextContentAfter s.position.line).map fun line => (line.indent, line.isEnd))),
        .ok (some (s.token .newline .nothing m.lexeme))) :=
    (Accepts.headerNewline hheader).act_eq
  exact step_of_select hselect (hact (s.report _) hheader)

/-- The end of a header's line is a move. -/
theorem move_of_header (table : LineTable) (hs : s.isDone = false)
    (hselect : s.mode.select s.rest = some (.headerNewline, m)) (hheader : s.followsHeader = true) :
    Move table s [s.token .newline .nothing m.lexeme]
      (((s.report (.ruleMatched .headerNewline s.mode s.position.line s.position.column)).advance
        m.lexeme).withBlocks (s.blocks.expectMembers
          ((table.nextContentAfter s.position.line).map fun line => (line.indent, line.isEnd)))) :=
  .piece hs (step_of_header table hselect hheader)
    (.other (by simp [token, piece]) (by simp [token, piece]))

/-- It is the only move there. -/
theorem Move.of_header {moved : List Piece} (hmove : Move table s moved u)
    (hselect : s.mode.select s.rest = some (.headerNewline, m)) (hheader : s.followsHeader = true) :
    moved = [s.token .newline .nothing m.lexeme] ∧
      u = ((s.report (.ruleMatched .headerNewline s.mode s.position.line s.position.column)).advance
        m.lexeme).withBlocks (s.blocks.expectMembers
          ((table.nextContentAfter s.position.line).map fun line => (line.indent, line.isEnd))) := by
  obtain ⟨hmoved, -, hsettles⟩ := hmove.of_step (some _) (step_of_header table hselect hheader)
  exact ⟨hmoved, (hsettles _ rfl).eq_of_gap (.inr rfl)⟩

end Scan

end BlockLexer
