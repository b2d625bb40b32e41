import BlockLexer.Proofs.BodyEnds
import BlockLexer.Proofs.Places
import BlockLexer.Proofs.SkippedImports

/-!
# Texts with emptied lines

A scan may skip a whole line as an import.  This module compares a source with another one that
has an empty line there.

* `Source.SkipsLine` are the lines that a scan skips, and `Source.Empties` are the two sources.
* `Source.Empties.nextContent_cases` and `Source.Empties.bodyIndent_cases` say where the two line
  tables answer alike.
* `Scan.Beside` are two scans that have come equally far, and `Scan.Beside.inStep` says when they
  take the same step.
* `Scan.Beside.exists_of_header`: behind a header without members the tables may differ.
-/

namespace BlockLexer

open Text Files Import

/-! ## Skipped lines -/

namespace Source

variable {source source' : Source} {number : Nat}

/-- The scan of a source comes to a state. -/
def ComesTo (source : Source) (s : Scan) : Prop :=
  ∃ pieces, Scan.Run source.table (Lexer.ofSource source).scan pieces s

/-- The scan of a source comes to a state in which it skips a whole line as an import. -/
structure SkipsAt (source : Source) (number : Nat) (m : Match) (s : Scan) : Prop where
  comes : source.ComesTo s
  select : s.mode.select s.rest = some (.directive, m)
  takes : s.TakesLine m
  line : s.position.line = number

/-- The scan of a source skips a whole line as an import. -/
def SkipsLine (source : Source) (number : Nat) : Prop :=
  ∃ m s, source.SkipsAt number m s

/-- Two sources, one of which has an empty line wherever the scan of the other skips one. -/
structure Empties (source source' : Source) : Prop where
  table : source.table = .ofText source.table.tabWidth source.text
  table' : source'.table = .ofText source.table.tabWidth source'.text
  closed : source.text = [] ∨ source.text.getLast? = some '\n'
  closed' : source'.text = [] ∨ source'.text.getLast? = some '\n'
  emptied : ∀ n, source.SkipsLine (n + 1) → (splitLines source'.text)[n]? = some []
  kept : ∀ n, ¬source.SkipsLine (n + 1) →
    (splitLines source'.text)[n]? = (splitLines source.text)[n]?

/-- The same line, or a skipped one that has been emptied. -/
def KeepsOrEmpties (source : Source) (line line' : Line) : Prop :=
  line.Same line' ∨ source.SkipsLine line.number ∧ line.isDirective = true ∧ line'.chars = []

end Source

namespace Scan

/-- What is left at the beginning of a line are the lines from there on. -/
theorem StandsIn.rest_eq_unlines {text : List Char} {s : Scan} (h : StandsIn text s)
    (hclosed : text = [] ∨ text.getLast? = some '\n') (hcolumn : s.position.column = 1) :
    s.rest = unlines ((splitLines text).drop (s.position.line - 1)) := by
  rw [← h.splitLines_rest hcolumn, unlines_splitLines_of_closed (h.closed_rest hclosed)]

/-- What is left in front of some lines of the text ends with a line feed. -/
theorem StandsIn.exists_lineFeed {text front : List Char} {s : Scan} {n : Nat} (h : StandsIn text s)
    (hclosed : text = [] ∨ text.getLast? = some '\n') (hn : n ≤ (splitLines text).length)
    (hrest : s.rest = front ++ unlines ((splitLines text).drop n)) (hne : front ≠ []) :
    s.position.line ≤ n ∧ ∃ line more, front = line ++ '\n' :: more ∧ '\n' ∉ line := by
  obtain ⟨passed, htext, hposition⟩ := h
  have htake : passed ++ front = unlines ((splitLines text).take n) := by
    rw [hrest, ← List.append_assoc] at htext
    exact List.append_cancel_right (htext.symm.trans (unlines_take_append_drop hclosed n).symm)
  have hfeed : '\n' ∈ front := by
    have hlast := getLast?_unlines ((splitLines text).take n)
    rw [← htake, List.append_eq_nil_iff, List.getLast?_append_of_ne_nil _ hne] at hlast
    exact List.mem_of_getLast? (hlast.resolve_left fun hnil => hne hnil.2)
  refine ⟨?_, List.eq_append_cons_of_mem hfeed⟩
  have hcount := congrArg (List.count '\n') htake
  rw [List.count_append, count_unlines fun line hline =>
    lineFeed_not_mem_of_mem_splitLines (List.mem_of_mem_take hline), List.length_take] at hcount
  have hpos := List.count_pos_iff.2 hfeed
  rw [hposition, Position.line_after]
  show 1 + _ ≤ _
  omega

end Scan

/-- An import has content, and does not begin with the word `end`. -/
theorem Line.hasContent_of_directive {line : Line} (h : line.isDirective = true) :
    line.hasContent = true := by
  obtain ⟨c, more, hcontent, -⟩ := exists_content_of_directive h
  rw [hasContent, hcontent]
  rfl

theorem Line.isEnd_of_directive {line : Line} (h : line.isDirective = true) :
    line.isEnd = false := by
  obtain ⟨c, more, hcontent, hc⟩ := exists_content_of_directive h
  rw [isEnd, hcontent, Bool.and_eq_false_iff]
  left
  rw [List.take_succ_cons, equalsCaseless, List.map_cons, hc]
  exact decide_eq_false fun hsame => by cases (List.cons.inj hsame).1

namespace Source.Empties

variable {source source' : Source} {number : Nat} (h : source.Empties source')

include h

theorem numbered : source.table.Numbered :=
  h.table ▸ LineTable.numbered_ofText _ _

theorem numbered' : source'.table.Numbered :=
  h.table' ▸ LineTable.numbered_ofText _ _

theorem tabWidth_eq : source'.table.tabWidth = source.table.tabWidth := by
  rw [h.table']
  rfl

/-- A scan of the first source is on its way. -/
theorem onWay {s : Scan} (hs : source.ComesTo s) : Scan.OnWay source.table source.text s := by
  obtain ⟨pieces, hrun⟩ := hs
  exact Lexer.onWay_of_run h.numbered hrun

/-- A line that is skipped is an import. -/
theorem exists_directive (hskips : source.SkipsLine number) :
    ∃ line, source.table.get? number = some line ∧ line.isDirective = true := by
  obtain ⟨m, s, hs, hselect, htakes, rfl⟩ := hskips
  have hdirective : (source.table.get? s.position.line).any Line.isDirective = true :=
    h.table ▸ (h.onWay hs).stands.isDirective hselect htakes
  exact (Option.any_eq_true _ _).1 hdirective

theorem get?_same (hkept : ¬source.SkipsLine number) :
    Option.Rel Line.Same (source.table.get? number) (source'.table.get? number) := by
  cases number with
  | zero => exact .none
  | succ n =>
    rw [h.table, h.table']
    exact LineTable.same_of_getElem? _ (h.kept n hkept)

/-- Every line is kept or emptied. -/
theorem get?_rel (number : Nat) :
    Option.Rel (KeepsOrEmpties source) (source.table.get? number) (source'.table.get? number) := by
  by_cases hskips : source.SkipsLine number
  · obtain ⟨line, hline, hdirective⟩ := h.exists_directive hskips
    have hnumber := h.numbered _ _ hline
    obtain ⟨n, rfl⟩ := Nat.exists_eq_succ_of_ne_zero (Nat.ne_of_gt (LineTable.pos_of_get? hline))
    rw [hline, h.table', Nat.succ_eq_add_one, LineTable.get?_ofText, h.emptied n hskips]
    exact .some (.inr ⟨hnumber ▸ hskips, hdirective, rfl⟩)
  · match source.table.get? number, source'.table.get? number, h.get?_same hskips with
    | _, _, .none => exact .none
    | _, _, .some hline => exact .some (.inl hline)

/-- What is found behind a line in both tables is the same, or a skipped line in the first. -/
theorem find?_cases {p : Line → Bool} (hp : ∀ {line line' : Line}, line.Same line' → p line' = p line)
    (hdirective : ∀ line : Line, line.isDirective = true → p line = true) (number : Nat) :
    (∃ line, (source.table.lines.drop number).find? p = some line ∧
        source.SkipsLine line.number ∧ line.isDirective = true) ∨
      Option.Rel Line.Same ((source.table.lines.drop number).find? p)
        ((source'.table.lines.drop number).find? p) := by
  have hlines := LineTable.forall₂_drop_of_rel number fun n _ => h.get?_rel n
  generalize source.table.lines.drop number = lines at hlines ⊢
  generalize source'.table.lines.drop number = lines' at hlines ⊢
  induction hlines with
  | nil => exact .inr .none
  | @cons line line' lines lines' hline _ ih =>
    rw [List.find?_cons, List.find?_cons]
    rcases hline with hsame | ⟨hskips, himport, -⟩
    · rw [hp hsame]
      cases hfound : p line with
      | true => exact .inr (.some hsame)
      | false => exact ih
    · rw [hdirective line himport]
      exact .inl ⟨line, rfl, hskips, himport⟩

/-- Behind the end of a header the tables find the same, or the first finds a skipped line. -/
theorem nextContent_cases (number : Nat) :
    (∃ line, source.table.nextContentAfter number = some line ∧ line.isDirective = true) ∨
      ((source'.table.nextContentAfter number).map fun line => (line.indent, line.isEnd)) =
        (source.table.nextContentAfter number).map fun line => (line.indent, line.isEnd) := by
  rcases h.find?_cases (p := Line.hasContent) (fun hsame => hsame.hasContent_eq)
    (fun _ => Line.hasContent_of_directive) number with ⟨line, hline, -, hdirective⟩ | hrel
  · exact .inl ⟨line, hline, hdirective⟩
  · right
    unfold LineTable.nextContentAfter
    match (source.table.lines.drop number).find? Line.hasContent,
      (source'.table.lines.drop number).find? Line.hasContent, hrel with
    | _, _, .none => rfl
    | _, _, .some hline => rw [Option.map_some, Option.map_some, hline.indent, hline.isEnd_eq]

/-- A body is as far indented in both, or the first table finds a skipped line behind its
marker. -/
theorem bodyIndent_cases (number : Nat) :
    (∃ line, (source.table.lines.drop number).find? (fun line => !line.isBlank) = some line ∧
        source.SkipsLine line.number ∧ line.isDirective = true) ∨
      source'.table.bodyIndent number = source.table.bodyIndent number := by
  rcases h.find?_cases (p := fun line => !line.isBlank) (fun hsame => by rw [hsame.isBlank_eq])
    (fun line hdirective => by
      rw [Line.isBlank, Line.hasContent_of_directive hdirective]
      rfl) number with hskipped | hrel
  · exact .inl hskipped
  · exact .inr (elim_indent_of_rel (resembles_of_rel hrel))

end Source.Empties

/-! ## Side by side -/

namespace Scan

variable {source source' : Source} {behind n : Nat} {before before' moved more : List Piece}
  {s s' t v v' w : Scan} {text : List Char} {rule : Rule} {m : Match}

/-- Two scans that have come equally far behind a line, the first one on a run. -/
structure Beside (source source' : Source) (behind : Nat) (before before' : List Piece)
    (s s' : Scan) : Prop where
  run : Run source.table (Lexer.ofSource source).scan before s
  leads : ∀ tokens, LeadsTo source'.table [] (Lexer.ofSource source').scan tokens ↔
    LeadsTo source'.table before' s' tokens
  agrees : List.Forall₂ Piece.Agrees before before'
  twin : Twin s s'
  way' : OnWay source'.table source'.text s'
  line : behind < s.position.line
  opens : OpensBehind (behind + 1) s
  goes : s.isDone = false

/-- As long as no line is skipped, both scans take the same step, if the tables say the same to
the rules that look ahead. -/
theorem Beside.inStep {ahead : List Char} (h : source.Empties source')
    (hb : Beside source source' behind before before' v v')
    (hclear : ∀ k, behind < k → k ≤ n → ¬source.SkipsLine k)
    (hn : n ≤ (splitLines source.text).length)
    (hselect : v.mode.select v.rest = some (rule, m))
    (hrest : v.rest = m.lexeme ++ ahead ++ unlines ((splitLines source.text).drop n))
    (hrest' : v'.rest = m.lexeme ++ ahead ++ unlines ((splitLines source'.text).drop n))
    (hruns : rule.RunsOn → ahead ≠ [])
    (hmarker : rule = .bodyMarker → v.afterBody = false →
      source'.table.bodyIndent v.position.line = source.table.bodyIndent v.position.line)
    (hcontent : rule = .headerNewline → v.followsHeader = true →
      ((source'.table.nextContentAfter v.position.line).map fun line => (line.indent, line.isEnd)) =
        (source.table.nextContentAfter v.position.line).map fun line => (line.indent, line.isEnd))
    (hbody : rule = .bodyLine → ∀ body outer, v.modes = .body body :: outer →
      v.position.line ≠ n) :
    InStep source.table source'.table rule m v v' := by
  have hway := h.onWay ⟨_, hb.run⟩
  have hne : m.lexeme ++ ahead ≠ [] :=
    List.append_ne_nil_of_left_ne_nil (Mode.select_lexeme_ne_nil hselect) _
  obtain ⟨hle, line, behind', hfirst, hline⟩ :=
    hway.stands.exists_lineFeed h.closed hn hrest hne
  have hsame {k : Nat} (hlt : behind < k) (hle : k ≤ n) := h.get?_same (hclear k hlt hle)
  have hhere := resembles_of_rel (hsame hb.line hle)
  refine ⟨?_, ?_, LineTable.indentOf_of_rel hhere⟩
  · rw [hb.twin.mode_eq, hrest', hfirst, List.append_assoc, List.cons_append]
    rw [hrest, hfirst, List.append_assoc, List.cons_append] at hselect
    refine Mode.select_of_line hline hselect fun hrule => ?_
    obtain ⟨c, left, rfl⟩ := List.exists_cons_of_ne_nil (hruns hrule)
    refine ⟨c, left ++ unlines ((splitLines source.text).drop n),
      left ++ unlines ((splitLines source'.text).drop n), ?_, ?_⟩
    all_goals
      rw [← List.cons_append, ← List.append_assoc, ← hfirst]
      simp only [List.append_assoc, List.cons_append]
  · refine Shift.answers_loose h.tabWidth_eq h.numbered hb.twin.line_eq hhere hmarker hcontent
      fun hrule body outer hmodes => ?_
    have hlt := Nat.lt_of_le_of_ne hle (hbody hrule body outer hmodes)
    have hopens : behind < body.marker := hb.opens body outer hmodes
    exact ⟨resembles_of_rel (hsame (Nat.lt_succ_of_lt hb.line) hlt),
      fun k hk hk' => hsame (Nat.lt_trans hopens hk) (Nat.le_trans hk' hle)⟩

end Scan

/-! ## Markers -/

/-- Up to the first line that is not blank, the lines behind a marker go on with its body. -/
theorem LineTable.runsTo_of_find? {table : LineTable} {marker : Nat} {line : Line}
    (hnumbered : table.Numbered)
    (hfound : (table.lines.drop marker).find? (fun line => !line.isBlank) = some line)
    (hline : line.isMarker = false) : marker < line.number ∧ table.RunsTo marker line.number := by
  obtain ⟨hfilled, above, below, hlines, habove⟩ := List.find?_eq_some_iff_append.1 hfound
  have hget (i : Nat) : table.get? (marker + i + 1) = (above ++ line :: below)[i]? := by
    rw [get?_succ, ← List.getElem?_drop, hlines]
  have hnumber : line.number = marker + above.length + 1 := by
    refine (hnumbered _ _ ?_)
    rw [hget, List.getElem?_append_right (Nat.le_refl _), Nat.sub_self, List.getElem?_cons_zero]
  have hindent : table.bodyIndent marker = line.indent := by
    unfold bodyIndent
    rw [hfound]
    rfl
  refine ⟨by omega, fun k hk hle => ?_⟩
  obtain ⟨i, rfl⟩ : ∃ i, k = marker + i + 1 := ⟨k - marker - 1, by omega⟩
  rw [hget, hindent, List.getElem?_append]
  split
  · next hlt =>
    have hblank := habove above[i] (List.getElem_mem hlt)
    rw [List.getElem?_eq_getElem hlt, Option.any_some, Line.continues,
      Line.isMarker_of_isBlank (by simpa using hblank)]
    simpa using Or.inl hblank
  · obtain rfl : i = above.length := by omega
    simp [Line.continues, hline]

/-- A header ends with its line. -/
theorem Mode.eq_of_select_headerNewline {mode : Mode} {cs : List Char} {m : Match}
    (h : mode.select cs = some (.headerNewline, m)) :
    mode = .block ∧ m.lexeme = ['\n'] ∧
      ∀ left, Mode.block.select (['\n'] ++ left) = some (.headerNewline, m) := by
  obtain rfl := Mode.eq_of_mem_rules (Scan.mem_rules_of_select h) rfl
  obtain ⟨left, hcut, hleft⟩ := Match.exists_append_of_ofPattern (Pattern.isCut_one _)
    (Mode.match?_of_select h)
  obtain ⟨c, more, rfl⟩ := List.exists_cons_of_ne_nil (Mode.ne_nil_of_select h)
  obtain ⟨hc, -⟩ := Option.ite_none_right_eq_some.1 hcut
  obtain rfl := of_decide_eq_true hc
  obtain ⟨-, rfl⟩ := Prod.mk.inj (Option.some.inj h)
  exact ⟨rfl, rfl, fun _ => rfl⟩

namespace Scan

variable {source source' : Source} {behind : Nat} {before before' moved : List Piece}
  {v v' w : Scan} {m : Match} {left : List Char}

/-- A body that a scan opens is as far indented in both tables: no line to which the body runs
is skipped. -/
theorem bodyIndent_of_marker (h : source.Empties source') (hv : source.ComesTo v)
    (hmove : Move source.table v moved w) (hselect : v.mode.select v.rest = some (.bodyMarker, m))
    (hafter : v.afterBody = false) :
    source'.table.bodyIndent v.position.line = source.table.bodyIndent v.position.line := by
  rcases h.bodyIndent_cases v.position.line with ⟨line, hfound, hskips, hdirective⟩ | hsame
  · exfalso
    have hnumbered := h.numbered
    have hne := Mode.ne_nil_of_select hselect
    obtain ⟨hlt, hruns⟩ := LineTable.runsTo_of_find? hnumbered hfound
      (Line.isMarker_of_directive hdirective)
    obtain ⟨marker, hmarker⟩ : ∃ marker, source.table.get? v.position.line = some marker := by
      have hstands := (h.onWay hv).stands
      refine LineTable.exists_get? _ _ hstands.line_pos ?_
      rw [h.table, LineTable.size_ofText]
      exact hstands.line_le h.closed hne
    have hnumber : marker.number = v.position.line := hnumbered _ _ hmarker
    obtain ⟨pieces, hrun⟩ := hv
    obtain ⟨rule, m', a, piece?, hselect', hact, hmodes, -, hmoved⟩ := hmove.exists_of_rest hne
    obtain ⟨rfl, rfl⟩ := Prod.mk.inj (Option.some.inj (hselect.symm.trans hselect'))
    have hopened := modes_of_bodyMarker hact hafter hmarker
    have hline : w.position.line = v.position.line := by
      have hfree := Rule.lineFeed_not_mem_of_bodyMarker (Mode.match?_of_select hselect)
      rw [hmoved, Position.line_after, List.count_eq_zero.2 hfree, Nat.add_zero]
    obtain ⟨m', s, ⟨pieces', hrun'⟩, hselect', -, hs⟩ := hskips
    obtain ⟨after, s', -, hrun'', hs'⟩ := (hrun.trans hmove.run).exists_behind hrun'
      (by rw [hline, hs]; exact hlt)
    refine HasOpened.not_selects_directive (m := m')
      ⟨_, _, w, _, _, hrun.trans hmove.run, hrun'', hmodes.trans hopened, rfl⟩ hnumbered rfl rfl ?_ ?_
    · show source.table.RunsTo marker.number _
      rw [hs'.position, hs, hnumber]
      exact hruns
    · rw [hs'.memories.mode, hs'.rest]
      exact hselect'
  · exact hsame

/-! ## Headers -/

theorem Twin.withBlocks (h : Twin v v') (blocks : BlockStack) :
    Twin (v.withBlocks blocks) (v'.withBlocks blocks) :=
  ⟨h.positions, h.memories.modes, by rw [Shift.frame_loose, List.map_id]; rfl, h.memories.last,
    h.memories.afterBody, h.memories.isDone⟩

theorem Twin.advance (h : Twin v v') (event event' : Event) (cs : List Char) :
    Twin ((v.report event).advance cs) ((v'.report event').advance cs) :=
  ⟨h.positions.after_of_zero cs, h.memories.modes, h.memories.blocks, h.memories.last,
    h.memories.afterBody, h.memories.isDone⟩

theorem OnWay.withBlocks {table : LineTable} {text : List Char} {blocks : BlockStack}
    (h : OnWay table text v) (hlength : blocks.length = v.blocks.length) :
    OnWay table text (v.withBlocks blocks) := by
  refine ⟨h.stands.of_place rfl, h.bodies, ?_⟩
  show Stacked blocks.length v.modes
  rw [hlength]
  exact h.stacked

/-- At the beginning of a line no member comes if the line in front of it sees none. -/
theorem StandsIn.memberless {tabWidth number : Nat} {text : List Char} {s : Scan}
    (h : StandsIn text s) (hclosed : text = [] ∨ text.getLast? = some '\n')
    (hcolumn : s.position.column = 1) (hline : s.position.line = number + 1)
    (hmembers : ∀ line ∈ (LineTable.ofText tabWidth text).nextContentAfter number,
      line.isEnd = true) :
    Memberless s.rest := by
  rw [h.rest_eq_unlines hclosed hcolumn, hline, Nat.add_sub_cancel]
  exact memberless_of_nextContent hmembers

/-- There it makes no difference what a block was told of its members. -/
theorem finishes_expectMembers_iff {table : LineTable} {s : Scan} {pieces : List Piece}
    (hs : s.isDone = false) (hmode : s.mode = .block) (hheader : BehindHeader s)
    (hmemberless : Memberless s.rest) (blocks : BlockStack) (next next' : Option (Nat × Bool)) :
    Finishes table (s.withBlocks (blocks.expectMembers next)) pieces ↔
      Finishes table (s.withBlocks (blocks.expectMembers next')) pieces := by
  rcases BlockStack.expectMembers_cases next next' blocks with
    hsame | ⟨frame, frame', outer, hframe, hframe', howner, hindent⟩
  · rw [hsame]
  · rw [hframe, hframe']
    exact finishes_withBlocks_iff hs hmode hheader hmemberless howner hindent

/-- Behind a header both scans come to the next line, whatever the first table says, if no member
comes in the second text. -/
theorem Beside.exists_of_header (h : source.Empties source')
    (hb : Beside source source' behind before before' v v')
    (hselect : v.mode.select v.rest = some (.headerNewline, m)) (hheader : v.followsHeader = true)
    (hrest' : v'.rest = m.lexeme ++ left) (hmove : Move source.table v moved w)
    (hmembers : ∀ line ∈ source'.table.nextContentAfter v.position.line, line.isEnd = true) :
    ∃ moved' w', Beside source source' behind (before ++ moved) (before' ++ moved') w w' ∧
      w'.rest = left := by
  have hne := Mode.ne_nil_of_select hselect
  obtain ⟨hmode, hlexeme, hfeed⟩ := Mode.eq_of_select_headerNewline hselect
  have hblock : v'.mode = .block := hb.twin.mode_eq.trans hmode
  have hselect' : v'.mode.select v'.rest = some (.headerNewline, m) := by
    rw [hblock, hrest', hlexeme]
    exact hfeed left
  have hs' : v'.isDone = false := hb.twin.memories.isDone.trans hb.goes
  have hheader' : v'.followsHeader = true :=
    (hb.twin.memories.headed hb.twin.line_eq).1.trans hheader
  -- Both scans take the end of the line, and only their blocks may differ.
  let seen := v.report (.ruleMatched .headerNewline v.mode v.position.line v.position.column)
  let seen' := v'.report (.ruleMatched .headerNewline v'.mode v'.position.line v'.position.column)
  let required := v.blocks.expectMembers
    ((source.table.nextContentAfter v.position.line).map fun line => (line.indent, line.isEnd))
  let required' := v.blocks.expectMembers
    ((source'.table.nextContentAfter v.position.line).map fun line => (line.indent, line.isEnd))
  obtain ⟨rfl, rfl⟩ : moved = [v.token .newline .nothing m.lexeme] ∧
      w = (seen.advance m.lexeme).withBlocks required := hmove.of_header hselect hheader
  have hlookup : v'.blocks.expectMembers ((source'.table.nextContentAfter v'.position.line).map
      fun line => (line.indent, line.isEnd)) = required' := by
    rw [hb.twin.blocks_eq, hb.twin.line_eq]
  have hmove' : Move source'.table v' [v'.token .newline .nothing m.lexeme]
      ((seen'.advance m.lexeme).withBlocks required') :=
    hlookup ▸ move_of_header source'.table hs' hselect' hheader'
  have hline : (seen'.advance m.lexeme).position.line = v'.position.line + 1 := by
    show (v'.position.after m.lexeme).line = _
    rw [hlexeme]
    rfl
  have hway' : OnWay source'.table source'.text ((seen'.advance m.lexeme).withBlocks required') :=
    OnWay.run h.numbered' hmove'.run hb.way'
  have hmemberless : Memberless (seen'.advance m.lexeme).rest := by
    have hcolumn : (v'.position.after m.lexeme).column = 1 := by
      rw [hlexeme]
      rfl
    rw [h.table'] at hmembers
    exact StandsIn.memberless (s := seen'.advance m.lexeme) hway'.stands h.closed' hcolumn
      (hline.trans (congrArg (· + 1) hb.twin.line_eq)) hmembers
  have hforgets (pieces : List Piece) :
      Finishes source'.table ((seen'.advance m.lexeme).withBlocks required') pieces ↔
        Finishes source'.table ((seen'.advance m.lexeme).withBlocks required) pieces :=
    finishes_expectMembers_iff (s := seen'.advance m.lexeme) hs' hblock
      (behindHeader_of_followsHeader hheader' rfl (by rw [hline]; exact Nat.lt_succ_self _))
      hmemberless v.blocks _ _
  refine ⟨_, (seen'.advance m.lexeme).withBlocks required, ⟨hb.run.trans hmove.run,
    fun tokens => (hb.leads tokens).trans (hmove'.run.leadsTo_iff.trans (leadsTo_congr hforgets)),
    ?_, ?_, ?_, ?_, ?_, ?_⟩, ?_⟩
  · refine List.rel_append hb.agrees (.cons ⟨rfl, rfl, hb.twin.line_eq, ?_⟩ .nil)
    exact fun hne => absurd rfl hne
  · exact (hb.twin.advance _ _ m.lexeme).withBlocks required
  · refine hway'.withBlocks (v := (seen'.advance m.lexeme).withBlocks required') ?_
    show required.length = required'.length
    rw [BlockStack.length_expectMembers, BlockStack.length_expectMembers]
  · exact Nat.lt_of_lt_of_le hb.line (line_le_of_run hmove.run)
  · exact opensBehind_of_run h.numbered hmove.run (h.onWay ⟨_, hb.run⟩) hb.line hb.opens
  · exact hmove.isDone_of_rest hb.goes hne
  · show v'.rest.drop m.lexeme.length = left
    rw [hrest', List.drop_left]

end Scan

end BlockLexer
