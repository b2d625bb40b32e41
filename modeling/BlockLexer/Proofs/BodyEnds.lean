import BlockLexer.Proofs.LineEnds
import BlockLexer.Proofs.Memberless

/-!
# Blank lines behind bodies

A body that is ended by a line further left does not have the blank lines in front of that line.
So it makes no difference whether such lines are read as a part of the body or behind it.

* `assembled_gaps_behind_iff`: pieces that are dropped make no difference behind a token.
* `Scan.step_of_bodyLine` is the step over a line of a body, and `Scan.BehindBody` the scan behind
  its last line.
* `Scan.leadsTo_of_body_iff`: the blank lines in front of the line that ends a body may be read
  behind it.
-/

namespace BlockLexer

open Text

/-! ## Gaps behind tokens -/

/-- A piece that is dropped. -/
def Piece.IsGap (piece : Piece) : Prop :=
  ∃ kind, piece.kind = .token kind ∧ kind.isFiltered = true

section Gaps

variable {piece : Piece} {pieces before gaps after : List Piece} {kind : Kind} {token : Token}
  {tokens : List Token}

/-- A piece that is a token makes one alone. -/
theorem Makes.eq_singleton (h : Makes pieces token) (hkind : piece.kind = .token kind)
    (hmem : piece ∈ pieces) : pieces = [piece] ∧ token.kind = kind := by
  cases h with
  | token hother =>
    obtain rfl := List.mem_singleton.1 hmem
    exact ⟨rfl, PieceKind.token.inj (hother.symm.trans hkind)⟩
  | string hstart hparts hstop =>
    rcases List.mem_append.1 hmem with hmem | hmem
    · rcases List.mem_cons.1 hmem with rfl | hpart
      · cases hkind.symm.trans hstart
      · exact absurd hkind ((hparts piece hpart).ne_token _)
    · obtain rfl := List.mem_singleton.1 hmem
      cases hkind.symm.trans hstop

/-- The pieces of a first token end in front of a piece that is a token, or begin with it. -/
theorem Makes.exists_between {first more : List Piece} (hmakes : Makes first token)
    (hkind : piece.kind = .token kind) (hall : before ++ piece :: after = first ++ more) :
    before = [] ∨ ∃ between, before = first ++ between ∧ more = between ++ piece :: after := by
  rcases List.append_eq_append_iff.1 hall with ⟨between, rfl, hmore⟩ | ⟨between, rfl, hmore⟩
  · cases between with
    | nil =>
      refine .inr ⟨[], ?_, hmore.symm⟩
      rw [List.append_nil, List.append_nil]
    | cons other between =>
      obtain ⟨rfl, -⟩ := List.cons.inj hmore
      obtain ⟨hone, -⟩ := hmakes.eq_singleton hkind (List.mem_append_right _ List.mem_cons_self)
      have hlength := congrArg List.length hone
      rw [List.length_append, List.length_cons, List.length_singleton] at hlength
      exact .inl (List.eq_nil_of_length_eq_zero (by omega))
  · exact .inr ⟨between, rfl, hmore⟩

/-- What pieces make can be cut in front of a piece that is a token. -/
theorem Assembled.exists_of_append_token (hkind : piece.kind = .token kind)
    (h : Assembled (before ++ piece :: after) tokens) :
    ∃ first rest, tokens = first ++ rest ∧ Assembled before first ∧
      Assembled (piece :: after) rest := by
  generalize hall : before ++ piece :: after = all at h
  induction h generalizing before with
  | nil => simp at hall
  | drop hmakes hfiltered hmore ih =>
    rcases hmakes.exists_between hkind hall with rfl | ⟨between, rfl, hsame⟩
    · rw [List.nil_append] at hall
      exact ⟨[], _, rfl, .nil, hall ▸ .drop hmakes hfiltered hmore⟩
    · obtain ⟨first, rest, rfl, hfirst, hrest⟩ := ih hsame.symm
      exact ⟨first, rest, rfl, .drop hmakes hfiltered hfirst, hrest⟩
  | keep hmakes hkept hmore ih =>
    rcases hmakes.exists_between hkind hall with rfl | ⟨between, rfl, hsame⟩
    · rw [List.nil_append] at hall
      exact ⟨[], _, rfl, .nil, hall ▸ .keep hmakes hkept hmore⟩
    · obtain ⟨first, rest, rfl, hfirst, hrest⟩ := ih hsame.symm
      exact ⟨_ :: first, rest, rfl, .keep hmakes hkept hfirst, hrest⟩

theorem Makes.of_cons_token {first more : List Piece} (hmakes : Makes first token)
    (hkind : piece.kind = .token kind) (hall : piece :: after = first ++ more) :
    first = [piece] ∧ more = after ∧ token.kind = kind := by
  obtain ⟨other, between, rfl⟩ := List.exists_cons_of_ne_nil hmakes.ne_nil
  obtain ⟨rfl, hmore⟩ := List.cons.inj hall
  obtain ⟨hone, hsame⟩ := hmakes.eq_singleton hkind List.mem_cons_self
  obtain ⟨-, rfl⟩ := List.cons.inj hone
  exact ⟨rfl, hmore.symm, hsame⟩

/-- And it can be cut behind it. -/
theorem Assembled.exists_of_cons_token (hkind : piece.kind = .token kind)
    (h : Assembled (piece :: after) tokens) :
    ∃ own rest, tokens = own ++ rest ∧ Assembled [piece] own ∧ Assembled after rest ∧
      (kind.isFiltered = true → own = []) := by
  generalize hall : piece :: after = all at h
  cases h with
  | nil => cases hall
  | drop hmakes hfiltered hmore =>
    obtain ⟨rfl, rfl, -⟩ := hmakes.of_cons_token hkind hall
    exact ⟨[], tokens, rfl, hmakes.dropped hfiltered, hmore, fun _ => rfl⟩
  | keep hmakes hkept hmore =>
    obtain ⟨rfl, rfl, rfl⟩ := hmakes.of_cons_token hkind hall
    refine ⟨[_], _, rfl, hmakes.kept hkept, hmore, fun hfiltered => ?_⟩
    cases hfiltered.symm.trans hkept

/-- Pieces that are dropped make no difference in front of others. -/
theorem assembled_gaps_iff (hgaps : ∀ gap ∈ gaps, gap.IsGap) :
    Assembled (gaps ++ after) tokens ↔ Assembled after tokens := by
  induction gaps with
  | nil => rfl
  | cons gap gaps ih =>
    obtain ⟨⟨kind, hkind, hfiltered⟩, hgaps⟩ := List.forall_mem_cons.1 hgaps
    rw [List.cons_append, ← ih hgaps]
    constructor
    · intro h
      obtain ⟨own, rest, rfl, -, hrest, hnil⟩ := h.exists_of_cons_token hkind
      rwa [hnil hfiltered]
    · have hdropped : Assembled [gap] [] := Makes.dropped (.token hkind) hfiltered
      exact hdropped.append

/-- Pieces that are dropped make no difference behind a token. -/
theorem assembled_gaps_behind_iff (hkind : piece.kind = .token kind)
    (hgaps : ∀ gap ∈ gaps, gap.IsGap) :
    Assembled (before ++ piece :: (gaps ++ after)) tokens ↔
      Assembled (before ++ piece :: after) tokens := by
  constructor
  · intro h
    obtain ⟨first, rest, rfl, hfirst, hrest⟩ := h.exists_of_append_token hkind
    obtain ⟨own, rest, rfl, hown, hrest, -⟩ := hrest.exists_of_cons_token hkind
    exact hfirst.append (hown.append ((assembled_gaps_iff hgaps).1 hrest))
  · intro h
    obtain ⟨first, rest, rfl, hfirst, hrest⟩ := h.exists_of_append_token hkind
    obtain ⟨own, rest, rfl, hown, hrest, -⟩ := hrest.exists_of_cons_token hkind
    exact hfirst.append (hown.append ((assembled_gaps_iff hgaps).2 hrest))

end Gaps

/-! ## Blank lines -/

theorem Line.hasContent_of_isBlank {line : Line} (h : line.isBlank = true) :
    line.hasContent = false := by
  simpa using (Bool.and_eq_true_iff.1 h).1

theorem Line.isMarker_of_isBlank {line : Line} (h : line.isBlank = true) :
    line.isMarker = false := by
  unfold isBlank hasContent at h
  rw [isMarker]
  cases hcontent : line.content with
  | nil => rfl
  | cons c more =>
    rw [hcontent] at h
    cases h

/-- A body goes on with a blank line. -/
theorem OpenBody.step_of_isBlank {table : LineTable} {body : OpenBody} {current : Nat} {line : Line}
    (hline : table.get? (current + 1) = some line) (h : line.isBlank = true) :
    body.step table current = none := by
  rw [step, hline]
  simp [h, Line.isMarker_of_isBlank h]

/-- The first line behind a line is the next one. -/
theorem LineTable.of_drop_eq_cons {table : LineTable} {n : Nat} {line : Line} {more : List Line}
    (h : table.lines.drop n = line :: more) :
    table.get? (n + 1) = some line ∧ table.lines.drop (n + 1) = more := by
  refine ⟨?_, ?_⟩
  · rw [get?_succ, ← List.head?_drop, h]
    rfl
  · rw [← List.tail_drop, h, List.tail_cons]

/-- In front of a line that is no marker, a body ends if the line stands left of it. -/
theorem OpenBody.step_of_filled {table : LineTable} {body : OpenBody} {current : Nat} {line : Line}
    (hline : table.get? (current + 1) = some line) (hmarker : line.isMarker = false)
    (hfilled : line.isBlank = false) :
    body.step table current =
      if line.indent < body.indent then
        some (body.close table (if body.marker < lastFilled table body.marker current then
          some (lastFilled table body.marker current) else none))
      else none := by
  rw [step, hline]
  simp [hmarker, hfilled]

/-- Blank lines are not the last lines of a body. -/
theorem OpenBody.lastFilled_of_blanks {table : LineTable} {marker n : Nat} {above more : List Line}
    (hle : marker ≤ n) (hlines : table.lines.drop n = above ++ more)
    (hblank : ∀ line ∈ above, line.isBlank = true) :
    lastFilled table marker (n + above.length) = lastFilled table marker n := by
  have hget (i : Nat) (hi : i < above.length) :
      (table.get? (n + i + 1)).any Line.isBlank = true := by
    rw [LineTable.get?_succ, ← List.getElem?_drop, hlines, List.getElem?_append_left hi,
      List.getElem?_eq_getElem hi]
    exact hblank _ (List.getElem_mem hi)
  have hskip (i : Nat) (hi : i ≤ above.length) :
      lastFilled table marker (n + i) = lastFilled table marker n := by
    induction i with
    | zero => rfl
    | succ i ih =>
      rw [← Nat.add_assoc, lastFilled, hget i hi, decide_eq_true (by omega)]
      exact ih (Nat.le_of_lt hi)
  exact hskip _ (Nat.le_refl _)

/-! ## Behind a body -/

theorem agrees_of_closings {closed closed' : ClosedBody}
    (h : Shift.loose.Closings closed closed') : closed.piece.Agrees closed'.piece := by
  have htext : closed'.text = closed.text := h.text
  refine ⟨rfl, ?_, ?_, fun _ => rfl⟩
  · show Value.body closed'.text = _
    rw [htext]
    rfl
  · show closed'.text.startLine = _
    rw [htext]
    rfl

namespace Scan

variable {table : LineTable} {s t : Scan} {outer : List Activation} {blocks : BlockStack}
  {left more : List Char} {rule : Rule} {m : Match}

/-- A scan that has just left a body, with these lines ahead. -/
structure BehindBody (outer : List Activation) (blocks : BlockStack) (left : List Char)
    (s : Scan) : Prop where
  rest : s.rest = left
  modes : s.modes = outer
  blocks_eq : s.blocks = blocks
  header : Shift.header s.last = none
  afterBody : s.afterBody = true
  goes : s.isDone = false

/-- Two such scans at the same place. -/
theorem BehindBody.alike (h : BehindBody outer blocks left s) (h' : BehindBody outer blocks left t)
    (hposition : t.position = s.position) : Alike s t := by
  have hrefl := (Alike.refl s).memories
  refine ⟨h'.rest.trans h.rest.symm, hposition, ?_, ?_, ?_, h'.afterBody.trans h.afterBody.symm,
    h'.goes.trans h.goes.symm⟩
  · rw [h'.modes, ← h.modes]
    exact hrefl.modes
  · rw [h'.blocks_eq, ← h.blocks_eq]
    exact hrefl.blocks
  · rw [h'.header, h.header]
    rfl

theorem BehindBody.followsHeader_eq (h : BehindBody outer blocks left s) :
    s.followsHeader = false := by
  have hbehind : BehindHeader s := fun token htoken => by
    rw [h.header] at htoken
    cases htoken
  exact hbehind.not_header.1

/-- A gap leaves the scan behind the body. -/
theorem BehindBody.exists_run_of_gap (table : LineTable)
    (h : BehindBody outer blocks (m.lexeme ++ left) s)
    (hselect : (modeOf outer).select (m.lexeme ++ left) = some (rule, m)) (hrule : rule.IsGap) :
    ∃ gaps t, Run table s gaps t ∧ (∀ gap ∈ gaps, gap.IsGap) ∧ BehindBody outer blocks left t := by
  have hselect' : s.mode.select s.rest = some (rule, m) := by
    rw [mode, h.modes, h.rest]
    exact hselect
  obtain ⟨t, piece?, hblocks, hstep⟩ :=
    exists_gap_step table hselect' hrule h.followsHeader_eq
  have hmove := (hstep.move h.goes s.blocks).run
  have hsame : t.withBlocks s.blocks = t := by
    rw [← hblocks]
    rfl
  rw [hsame] at hmove
  refine ⟨piece?.toList, t, hmove, fun gap hgap => ?_, ?_, hstep.modes.trans h.modes,
    hblocks.trans h.blocks_eq, ?_, hstep.afterBody.trans h.afterBody, hstep.isDone.trans h.goes⟩
  · rcases hstep.gap gap (Option.mem_toList.1 hgap) with hkind | hkind
    · exact ⟨_, hkind, rfl⟩
    · exact ⟨_, hkind, rfl⟩
  · rw [hstep.moves.rest, h.rest, List.drop_left]
  · rw [hstep.last]
    exact h.header

/-- Blank lines are gaps. -/
theorem BehindBody.exists_run_of_blanks (table : LineTable) {lines : List (List Char)}
    (h : BehindBody outer blocks (unlines lines ++ left) s) (hmode : modeOf outer = .block)
    (hlines : ∀ line ∈ lines, ∀ c ∈ line, isBlank c = true) :
    ∃ gaps t, Run table s gaps t ∧ (∀ gap ∈ gaps, gap.IsGap) ∧ BehindBody outer blocks left t := by
  induction lines generalizing s with
  | nil => exact ⟨[], s, .refl s, by simp, h⟩
  | cons line lines ih =>
    obtain ⟨hline, hlines⟩ := List.forall_mem_cons.1 hlines
    rw [unlines_cons, List.append_assoc, List.cons_append] at h
    have hfeed (more : List Char) :
        (modeOf outer).select ('\n' :: more) = some (.headerNewline, { lexeme := ['\n'] }) := by
      rw [hmode]
      rfl
    obtain ⟨gaps, t, hrun, hgaps, ht⟩ : ∃ gaps t, Run table s gaps t ∧
        (∀ gap ∈ gaps, gap.IsGap) ∧
          BehindBody outer blocks (['\n'] ++ (unlines lines ++ left)) t := by
      by_cases hne : line = []
      · subst hne
        exact ⟨[], s, .refl s, by simp, h⟩
      · rcases Mode.select_append_blanks (.inr (.inl hmode)) hline hne (hfeed _) with
          ⟨hrule | hrule | hrule, -⟩ | hselect
        · cases hrule
        · cases hrule
        · cases hrule
        · exact h.exists_run_of_gap (m := { lexeme := line }) table hselect (.inr (.inl rfl))
    obtain ⟨gaps', u, hrun', hgaps', hu⟩ :=
      ht.exists_run_of_gap (m := { lexeme := ['\n'] }) table (hfeed _) (.inr (.inr rfl))
    obtain ⟨gaps'', v, hrun'', hgaps'', hv⟩ := ih hu hlines
    refine ⟨gaps ++ (gaps' ++ gaps''), v, hrun.trans (hrun'.trans hrun''), fun gap hgap => ?_, hv⟩
    rcases List.mem_append.1 hgap with hgap | hgap
    · exact hgaps gap hgap
    · exact (List.mem_append.1 hgap).elim (hgaps' gap) (hgaps'' gap)

/-! ## In a body -/

section Body

variable {body : OpenBody} {front : List Char} {closed : ClosedBody} {above below : List Line}
  {ahead : Line}

/-- A line of a body is taken with its end. -/
theorem select_bodyLine (hmodes : s.modes = .body body :: outer) (hfront : '\n' ∉ front)
    (hrest : s.rest = front ++ '\n' :: left) :
    s.mode.select s.rest = some (.bodyLine, { lexeme := front ++ ['\n'] }) := by
  have hall : ∀ c ∈ front, Lexeme.inLine c = true := fun c hc => by
    simpa [Lexeme.inLine] using ne_of_mem_of_not_mem hc hfront
  have hmode : s.mode = .body := congrArg modeOf hmodes
  have hcut : (Pattern.many Lexeme.inLine).seq Lexeme.lineEnd (front ++ '\n' :: left) =
      some (front ++ ['\n'], left) :=
    Pattern.seq_eq_some (Pattern.many_append hall (stops_cons rfl)) rfl
  rw [hmode, hrest]
  exact Mode.select_of_split [] rfl (by simp) (Match.ofPattern_eq_some hcut) (by simp)

/-- A step over a line of a body. -/
theorem step_of_bodyLine {closed? : Option ClosedBody} (hmodes : s.modes = .body body :: outer)
    (hs : s.isDone = false) (hfront : '\n' ∉ front) (hrest : s.rest = front ++ '\n' :: left)
    (hclosed : body.step table s.position.line = closed?) :
    ∃ t, s.step table = (t, closed?.map fun closed => .ok closed.piece) ∧ t.rest = left ∧
      t.position = s.position.after (front ++ ['\n']) ∧
      match closed? with
      | none => t.modes = s.modes ∧ t.blocks = s.blocks ∧ t.isDone = false
      | some _ => BehindBody outer s.blocks left t := by
  have hselect := select_bodyLine hmodes hfront hrest
  let seen := s.report (.ruleMatched .bodyLine s.mode s.position.line s.position.column)
  have hseen : seen.modes = .body body :: outer := hmodes
  have hline : body.step table seen.position.line = closed? := hclosed
  have hleft : s.rest.drop (front ++ ['\n']).length = left := by
    rw [hrest, List.append_cons front '\n' left, List.drop_left]
  cases closed? with
  | none =>
    have hact : seen.act table .bodyLine { lexeme := front ++ ['\n'] } = (seen, .ok none) := by
      refine (Accepts.bodyLine fun body' outer' hopen => ?_).act_eq
      obtain rfl := Activation.body.inj (List.cons.inj (hopen.symm.trans hseen)).1
      exact hline
    have hmoves := moves_of_act hact
    exact ⟨_, step_of_select hselect hact, hmoves.rest.trans hleft, hmoves.position, rfl, rfl, hs⟩
  | some closed =>
    let event := Event.bodyClosed closed.text.startLine closed.lastLine body.indent
    have hact : seen.act table .bodyLine { lexeme := front ++ ['\n'] } =
        ((seen.report event).pop, .ok (some closed.piece)) :=
      (Accepts.lastBodyLine hseen hline).act_eq
    have hmoves := moves_of_act hact
    refine ⟨_, step_of_select hselect hact, hmoves.rest.trans hleft, hmoves.position,
      hmoves.rest.trans hleft, ?_, rfl, rfl, rfl, hs⟩
    show s.modes.tail = outer
    rw [hmodes, List.tail_cons]

/-- Through blank lines a body runs to the line in front of which it ends. -/
theorem exists_run_of_body (hmodes : s.modes = .body body :: outer) (hs : s.isDone = false)
    (hfront : '\n' ∉ front) (hfree : ∀ line ∈ above, '\n' ∉ line.chars)
    (hlines : table.lines.drop s.position.line = above ++ ahead :: below)
    (hblank : ∀ line ∈ above, line.isBlank = true)
    (hrest : s.rest = front ++ '\n' :: (unlines (above.map Line.chars) ++ left))
    (hclosed : body.step table (s.position.line + above.length) = some closed) :
    ∃ t, Run table s [closed.piece] t ∧ BehindBody outer s.blocks left t := by
  induction above generalizing s front with
  | nil =>
    obtain ⟨t, hstep, -, -, hbehind⟩ := step_of_bodyLine hmodes hs hfront hrest hclosed
    exact ⟨t, .piece hs hstep (.other (nomatch ·) (nomatch ·)) (.refl t), hbehind⟩
  | cons line above ih =>
    obtain ⟨hline, hblank⟩ := List.forall_mem_cons.1 hblank
    obtain ⟨hfirst, hfree⟩ := List.forall_mem_cons.1 hfree
    rw [List.cons_append] at hlines
    obtain ⟨hnext, hlines⟩ := LineTable.of_drop_eq_cons hlines
    rw [List.map_cons, unlines_cons, List.append_assoc, List.cons_append] at hrest
    obtain ⟨t, hstep, htrest, hmoved, htmodes, hblocks, ht⟩ :=
      step_of_bodyLine hmodes hs hfront hrest (OpenBody.step_of_isBlank hnext hline)
    have hposition : t.position.line = s.position.line + 1 := by
      rw [hmoved, Position.line_after, List.count_append, List.count_eq_zero.2 hfront]
      rfl
    rw [← hposition] at hlines
    rw [List.length_cons, Nat.add_comm above.length, ← Nat.add_assoc, ← hposition] at hclosed
    obtain ⟨u, hrun, hu⟩ :=
      ih (htmodes.trans hmodes) ht hfirst hfree hlines hblank htrest hclosed
    exact ⟨u, .quiet hs hstep hrun, hblocks ▸ hu⟩

/-- It makes no difference whether blank lines are read as the end of a body or behind it. -/
theorem leadsTo_of_body_iff {before : List Piece} {tokens : List Token}
    (hmodes : s.modes = .body body :: outer) (hmode : modeOf outer = .block)
    (hs : s.isDone = false) (hfront : '\n' ∉ front)
    (hlines : table.lines.drop s.position.line = above ++ ahead :: below)
    (hblank : ∀ line ∈ above, line.isBlank = true)
    (hblanks : ∀ line ∈ above, ∀ c ∈ line.chars, isBlank c = true)
    (hrest : s.rest = front ++ '\n' :: (unlines (above.map Line.chars) ++ left))
    (hclosed : body.step table (s.position.line + above.length) = some closed)
    (ht : BehindBody outer s.blocks (unlines (above.map Line.chars) ++ left) t)
    (hposition : t.position = s.position.after (front ++ ['\n'])) :
    LeadsTo table before s tokens ↔ LeadsTo table (before ++ [closed.piece]) t tokens := by
  have hfree : ∀ line ∈ above, '\n' ∉ line.chars := fun line hline hfeed =>
    absurd (hblanks line hline _ hfeed) (by decide)
  obtain ⟨u, hrun, hu⟩ :=
    exists_run_of_body hmodes hs hfront hfree hlines hblank hrest hclosed
  obtain ⟨gaps, v, hrun', hgaps, hv⟩ := ht.exists_run_of_blanks table hmode
    (List.forall_mem_map.2 hblanks)
  have halike : Alike u v := by
    obtain ⟨passed, hpassed, hmoved⟩ := hrun.exists_passed
    obtain ⟨passed', hpassed', hmoved'⟩ := hrun'.exists_passed
    rw [ht.rest, hv.rest, List.append_cancel_right_eq] at hpassed'
    rw [hrest, hu.rest, List.append_cons, ← List.append_assoc,
      List.append_cancel_right_eq] at hpassed
    refine hu.alike hv ?_
    rw [hmoved, hmoved', hposition, ← hpassed, ← hpassed', Position.after_append _ (front ++ _)]
  rw [hrun.leadsTo_iff, hrun'.leadsTo_iff, leadsTo_congr (t := v) fun pieces =>
    ⟨fun hfinishes => hfinishes.of_alike halike, fun hfinishes => hfinishes.of_alike halike.symm⟩]
  refine exists_congr fun after => and_congr_right fun _ => ?_
  have hsame : Assembled (before ++ closed.piece :: (gaps ++ after)) tokens ↔
      Assembled (before ++ closed.piece :: after) tokens := assembled_gaps_behind_iff rfl hgaps
  rw [List.append_assoc, List.append_assoc, List.append_assoc]
  exact hsame.symm

/-- A body that only blank lines follow does not end. -/
theorem not_leadsTo_of_body {before : List Piece} {tokens : List Token}
    (hmodes : s.modes = .body body :: outer) (hs : s.isDone = false)
    (hblank : ∀ line ∈ table.lines.drop s.position.line, line.isBlank = true) :
    ¬LeadsTo table before s tokens := by
  rintro ⟨after, ⟨u, hrun, hu⟩, -⟩
  obtain ⟨current, closed, hle, hclosed⟩ := hrun.exists_closing hu hs hmodes
  obtain ⟨line, hline, hfilled⟩ := OpenBody.exists_filled hclosed
  rw [LineTable.get?_succ, ← Nat.add_sub_cancel' hle, ← List.getElem?_drop] at hline
  rw [hblank line (List.mem_of_getElem? hline)] at hfilled
  cases hfilled

/-- Neither does a block. -/
theorem BehindBody.not_leadsTo {before : List Piece} {tokens : List Token}
    {lines : List (List Char)} (h : BehindBody outer blocks (unlines lines) t)
    (hmode : modeOf outer = .block) (hlines : ∀ line ∈ lines, '\n' ∉ line ∧ IsIdle line) :
    ¬LeadsTo table before t tokens := by
  rintro ⟨after, ⟨u, hrun, hu⟩, -⟩
  refine hrun.not_idleText hu h.goes ?_ ⟨lines, h.rest, hlines⟩
  rw [mode, h.modes]
  exact hmode

/-- A move over the line with which a body ends. -/
theorem Move.of_bodyLine (hmove : Move table s moved t)
    (hmodes : s.modes = .body body :: outer) (hfront : '\n' ∉ front)
    (hrest : s.rest = front ++ '\n' :: left) (hleaves : t.mode ≠ .body) :
    ∃ closed, body.step table s.position.line = some closed ∧ moved = [closed.piece] ∧
      BehindBody outer s.blocks left t ∧ t.position = s.position.after (front ++ ['\n']) := by
  have hs := hmove.isDone_eq_false
  cases hclosed : body.step table s.position.line with
  | none =>
    obtain ⟨u, hstep, -, -, humodes, -⟩ := step_of_bodyLine hmodes hs hfront hrest hclosed
    obtain ⟨-, hsame, -⟩ := hmove.of_step none hstep
    obtain rfl := hsame rfl
    exact absurd (congrArg modeOf (humodes.trans hmodes)) hleaves
  | some closed =>
    obtain ⟨u, hstep, -, hmoved, hbehind⟩ := step_of_bodyLine hmodes hs hfront hrest hclosed
    obtain ⟨rfl, -, hsettles⟩ := hmove.of_step (some closed.piece) hstep
    obtain rfl :=
      (hsettles _ rfl).eq_of_other (by simp [ClosedBody.piece]) (by simp [ClosedBody.piece])
    exact ⟨closed, rfl, rfl, hbehind, hmoved⟩

end Body

end Scan

end BlockLexer
