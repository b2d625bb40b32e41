import BlockLexer.Proofs.Collected
import BlockLexer.Proofs.Select

/-!
# Reading on

How a scan comes from one place of a text to another, and which tokens come out of it.

* `View` is what matters of a scan to those who read on, and `Reads` says that every scan
  with one view runs to one with another, and what it delivers.  Readings compose.
* `reads_of_select` is one step: the rule that wins, its action, and what the later
  stages do to the blocks.
* `reads_indentation`, `reads_className` and those that follow read what the lines of
  blocks are made of, apart from expressions.
* `Lexer.tokens_of_reads` finds the tokens of a text that is read as a whole.
-/

namespace BlockLexer

open Text Lexeme

/-! ## Readings -/

/-- What matters of a scan to those who read on. -/
structure View where
  rest : List Char
  line : Nat
  modes : List Activation
  blocks : BlockStack
  last : Option (Kind × Nat)

/-- The view of a scan. -/
def Scan.view (s : Scan) : View where
  rest := s.rest
  line := s.position.line
  modes := s.modes
  blocks := s.blocks
  last := s.last

/-- Every scan with the first view comes to one with the second, and delivers tokens with
these kinds and values. -/
def Reads (table : LineTable) (v : View) (out : List (Kind × Value)) (v' : View) : Prop :=
  ∀ s : Scan, s.view = v → s.isDone = false →
    ∃ pieces tokens t, Scan.Run table s pieces t ∧ t.view = v' ∧ t.isDone = false ∧
      Assembled pieces tokens ∧ tokens.map Token.entry = out

variable {table : LineTable} {v v' v'' : View} {out more : List (Kind × Value)}

theorem Reads.refl (v : View) : Reads table v [] v :=
  fun s hs hdone => ⟨[], [], s, .refl s, hs, hdone, .nil, rfl⟩

theorem Reads.trans (h : Reads table v out v') (h' : Reads table v' more v'') :
    Reads table v (out ++ more) v'' := by
  intro s hs hdone
  obtain ⟨pieces, tokens, t, hrun, ht, hdone, hassembled, rfl⟩ := h s hs hdone
  obtain ⟨pieces', tokens', u, hrun', hu, hdone', hassembled', rfl⟩ := h' t ht hdone
  exact ⟨pieces ++ pieces', tokens ++ tokens', u, hrun.trans hrun', hu, hdone',
    hassembled.append hassembled', List.map_append⟩

/-! ## One step -/

/-- The token, if it is kept. -/
def kept (token : Kind × Value) : List (Kind × Value) :=
  if token.1.isFiltered then [] else [token]

/-- The memory of the last token behind a token on a line. -/
def noted (line : Nat) (kind : Kind) (last : Option (Kind × Nat)) : Option (Kind × Nat) :=
  if kind.isFiltered then last else some (kind, line)

/-- The blocks behind a token on a line, once the later stages have seen it. -/
def settled (table : LineTable) (line : Nat) (kind : Kind) (blocks : BlockStack) :
    Except Cause BlockStack :=
  if kind = .attributeName then blocks.checkMember (table.indentOf line) else .ok blocks

/-- The action of a match yields this token, and leaves these modes and these blocks. -/
def Acts (table : LineTable) (v : View) (rule : Rule) (m : Match) (token : Kind × Value)
    (modes : List Activation) (blocks : BlockStack) : Prop :=
  ∀ s : Scan, s.view = v → ∃ a piece, s.act table rule m = (a, .ok (some piece)) ∧
    piece.kind = .token token.1 ∧ piece.value = token.2 ∧ piece.span.line = v.line ∧
    a.modes = modes ∧ a.blocks = blocks

/-- An action that yields a token and changes nothing. -/
theorem Acts.token {rule : Rule} {m : Match} {token : Kind × Value}
    (h : ∀ s : Scan, s.view = v →
      s.act table rule m = (s, .ok (some (s.token token.1 token.2 m.lexeme)))) :
    Acts table v rule m token v.modes v.blocks := by
  rintro s rfl
  exact ⟨s, _, h s rfl, rfl, rfl, rfl, rfl, rfl⟩

/-- A token settles as the blocks say. -/
theorem Scan.exists_settles {piece : Piece} {token : Kind × Value} {s : Scan} {blocks : BlockStack}
    (hkind : piece.kind = .token token.1)
    (hsettled : settled table piece.span.line token.1 s.blocks = .ok blocks) :
    Settles table piece s { s with blocks } := by
  unfold settled at hsettled
  split at hsettled
  · next hname => exact .member (by rw [hkind, hname]) hsettled
  · next hname =>
    obtain rfl := Except.ok.inj hsettled
    exact .other (by simpa [hkind] using hname) (by simp [hkind])

/-- A piece that is a token of its own. -/
theorem assembled_kept {piece : Piece} {token : Kind × Value} (hkind : piece.kind = .token token.1)
    (hvalue : piece.value = token.2) :
    ∃ tokens, Assembled [piece] tokens ∧ tokens.map Token.entry = kept token := by
  have hmakes : Makes [piece] { kind := token.1, value := piece.value, span := piece.span } :=
    .token hkind
  unfold kept
  split
  · next hfiltered => exact ⟨[], .drop hmakes hfiltered .nil, rfl⟩
  · next hfiltered =>
    refine ⟨[_], .keep hmakes (by simpa using hfiltered) .nil, ?_⟩
    rw [List.map_singleton, Token.entry, hvalue]

namespace Scan

variable {s a : Scan} {rule : Rule} {m : Match} {piece : Piece}

/-- The memory of the last token behind a piece. -/
def remembered (piece : Piece) (last : Option (Kind × Nat)) : Option (Kind × Nat) :=
  (notedKind? piece.kind).elim last fun kind => some (kind, piece.span.line)

/-- The view behind a step whose action yields a piece. -/
theorem view_of_act {rest : List Char} (hrest : s.rest = m.lexeme ++ rest)
    (hact : s.act table rule m = (a, .ok (some piece))) :
    ((a.advance m.lexeme).note piece).view =
      { rest, line := s.position.line + m.lexeme.count '\n', modes := a.modes, blocks := a.blocks,
        last := remembered piece s.last } := by
  have hplace := place_note piece (a.advance m.lexeme)
  have harest : a.rest = s.rest := by
    rw [← act_rest table rule m s, hact]
  have haposition : a.position = s.position := by
    rw [← act_position table rule m s, hact]
  have halast : a.last = s.last := (accepts_of_act hact).last_eq
  have hleft : ((a.advance m.lexeme).note piece).rest = rest := by
    have hsame : ((a.advance m.lexeme).note piece).rest = a.rest.drop m.lexeme.length :=
      congrArg (·.1) hplace
    rw [hsame, harest, hrest, List.drop_left]
  have hline : ((a.advance m.lexeme).note piece).position.line =
      s.position.line + m.lexeme.count '\n' := by
    have hsame : ((a.advance m.lexeme).note piece).position = a.position.after m.lexeme :=
      congrArg (·.2.1) hplace
    rw [hsame, haposition, Position.line_after]
  have hlast : ((a.advance m.lexeme).note piece).last = remembered piece s.last := by
    have hsame : (a.advance m.lexeme).last = s.last := halast
    rw [note_last, hsame, remembered]
  rw [view, hleft, hline, hlast, note_modes, note_blocks]
  rfl

/-- A step whose action yields a piece, and the view behind it. -/
theorem exists_step_of_act {rest : List Char} (hselect : s.mode.select s.rest = some (rule, m))
    (hrest : s.rest = m.lexeme ++ rest)
    (hact : (s.report (.ruleMatched rule s.mode s.position.line s.position.column)).act table
      rule m = (a, .ok (some piece))) :
    ∃ t, s.step table = (t, some (.ok piece)) ∧ t.isDone = s.isDone ∧
      t.view = { rest, line := s.position.line + m.lexeme.count '\n', modes := a.modes,
                 blocks := a.blocks, last := remembered piece s.last } := by
  refine ⟨(a.advance m.lexeme).note piece, step_of_select hselect hact, ?_,
    view_of_act (s := s.report _) hrest hact⟩
  have hsame : ((a.advance m.lexeme).note piece).isDone = a.isDone :=
    congrArg (·.2.2) (place_note piece (a.advance m.lexeme))
  rw [hsame, ← congrArg (·.1.isDone) hact, act_isDone]
  rfl

/-- A token is remembered unless it is filtered. -/
theorem remembered_eq {kind : Kind} (hkind : piece.kind = .token kind)
    (last : Option (Kind × Nat)) : remembered piece last = noted piece.span.line kind last := by
  rw [remembered, hkind, notedKind?, noted]
  split <;> rfl

end Scan

/-- One step: the rule that wins takes the word, its action yields the token, and the
token settles. -/
theorem reads_of_select (token : Kind × Value) (word : List Char) {rest : List Char} {line : Nat}
    {modes modes' : List Activation} {blocks blocks' settledBlocks : BlockStack}
    {last : Option (Kind × Nat)} {rule : Rule} {m : Match} (hlexeme : m.lexeme = word)
    (hacts : Acts table { rest := word ++ rest, line, modes, blocks, last } rule m token modes'
      blocks')
    (hselect : (modeOf modes).select (word ++ rest) = some (rule, m))
    (hsettled : settled table line token.1 blocks' = .ok settledBlocks) :
    Reads table { rest := word ++ rest, line, modes, blocks, last } (kept token)
      { rest, line := line + word.count '\n', modes := modes', blocks := settledBlocks,
        last := noted line token.1 last } := by
  intro s hs hdone
  have hrest : s.rest = word ++ rest := congrArg View.rest hs
  have hline : s.position.line = line := congrArg View.line hs
  have hmodes : s.modes = modes := congrArg View.modes hs
  have hlast : s.last = last := congrArg View.last hs
  have hmode : s.mode.select s.rest = some (rule, m) := by
    rw [Scan.mode, hmodes, hrest, hselect]
  -- The event of the match is not seen in the view.
  obtain ⟨a, piece, hact, hkind, hvalue, hspan, hamodes, hablocks⟩ :=
    hacts (s.report (.ruleMatched rule s.mode s.position.line s.position.column)) hs
  have htaken : s.rest = m.lexeme ++ rest := by rw [hrest, hlexeme]
  obtain ⟨t, hstep, hend, hview⟩ := Scan.exists_step_of_act hmode htaken hact
  have hsettles : Scan.Settles table piece t { t with blocks := settledBlocks } := by
    refine Scan.exists_settles hkind ?_
    have hblocks : t.blocks = a.blocks := congrArg View.blocks hview
    rw [hblocks, hablocks, hspan]
    exact hsettled
  obtain ⟨tokens, hassembled, hentries⟩ := assembled_kept hkind hvalue
  refine ⟨[piece], tokens, { t with blocks := settledBlocks },
    .piece hdone hstep hsettles (.refl _), ?_, hend.trans hdone, hassembled, hentries⟩
  have hthere : ({ t with blocks := settledBlocks } : Scan).view =
      { t.view with blocks := settledBlocks } := rfl
  rw [hthere, hview, hamodes, hlexeme, Scan.remembered_eq hkind, hspan, hline, hlast]

/-! ## Between members -/

/-- The view at a place where nothing is open but blocks. -/
def View.between (rest : List Char) (line : Nat) (blocks : BlockStack)
    (last : Option (Kind × Nat)) : View :=
  { rest, line, modes := List.replicate blocks.length .block, blocks, last }

/-- The last token stands on an earlier line. -/
def IsPast (last : Option (Kind × Nat)) (line : Nat) : Prop :=
  ∀ token ∈ last, token.2 < line

theorem isPast_some (kind : Kind) (line : Nat) : IsPast (some (kind, line)) (line + 1) := by
  rintro token ⟨⟩
  exact Nat.lt_succ_self line

theorem Scan.followsHeader_eq_false {s : Scan} (h : IsPast s.last s.position.line) :
    s.followsHeader = false := by
  unfold followsHeader
  split
  · next kind line hlast =>
    have hlt : line < s.position.line := h (kind, line) hlast
    have hne : line ≠ s.position.line := Nat.ne_of_lt hlt
    simp [hne]
  · rfl

theorem count_lineFeed_of_isIdentifier {word : List Char} (hword : isIdentifier word = true) :
    word.count '\n' = 0 := by
  rw [List.count_eq_zero]
  intro hmem
  have hfeed : continuesName '\n' = true := continuesName_of_isIdentifier hword '\n' hmem
  cases hfeed

section Between

variable {rest cs word : List Char} {line : Nat} {blocks blocks' : BlockStack}
  {last : Option (Kind × Nat)}

/-- Blanks at the beginning of a line, if there are any, are read and nothing comes out. -/
theorem reads_indentation (n : Nat) (hdirective : directive (List.replicate n ' ' ++ cs) = none)
    (hblank : Stops isBlank cs) (hremark : Stops (· = ';') cs) :
    Reads table (.between (List.replicate n ' ' ++ cs) line blocks last) []
      (.between cs line blocks last) := by
  by_cases hn : n = 0
  · subst hn
    exact .refl _
  have hselect : (modeOf (List.replicate blocks.length .block)).select
      (List.replicate n ' ' ++ cs) = some (.blanks, { lexeme := List.replicate n ' ' }) := by
    cases blocks with
    | nil => exact Mode.select_default_blanks hn hdirective hblank hremark
    | cons => exact Mode.select_block_blanks hn hdirective hblank hremark
  have hcount : (List.replicate n ' ').count '\n' = 0 := by
    rw [List.count_eq_zero]
    intro hmem
    exact absurd (List.eq_of_mem_replicate hmem) (by decide)
  have hread : Reads table (.between (List.replicate n ' ' ++ cs) line blocks last) []
      (.between cs (line + (List.replicate n ' ').count '\n') blocks last) :=
    reads_of_select (.blanks, .nothing) _ rfl (.token fun s hs => rfl) hselect rfl
  rwa [hcount] at hread

/-! ## Headers -/

/-- The name of a class opens a block at the beginning of a line, as a member of the block
around it. -/
theorem reads_className (hword : isClassIdentifier word = true)
    (hend : equalsCaseless word endName = false) (hrest : Stops continuesName rest)
    (hdirective : directive (word ++ rest) = none) (hassign : assignment rest = none)
    (hpast : IsPast last line) (hcheck : blocks.checkMember (table.indentOf line) = .ok blocks') :
    Reads table (.between (word ++ rest) line blocks last) [(.className, .text word)]
      (.between rest line
        ({ owner := word, line, headerIndent := table.indentOf line } :: blocks')
        (some (.className, line))) := by
  have hselect : (modeOf (List.replicate blocks.length .block)).select (word ++ rest) =
      some (.className, { lexeme := word }) := by
    cases blocks with
    | nil => exact Mode.select_default_className hword hend hrest hdirective
    | cons => exact Mode.select_block_className hword hend hrest hdirective hassign
  have hlength : blocks'.length = blocks.length := BlockStack.length_checkMember hcheck
  have hacts : Acts table (.between (word ++ rest) line blocks last) .className { lexeme := word }
      (.className, .text word) (.block :: List.replicate blocks.length .block)
      ({ owner := word, line, headerIndent := table.indentOf line } :: blocks') := by
    intro s hs
    have hline : s.position.line = line := congrArg View.line hs
    have hmodes : s.modes = List.replicate blocks.length .block := congrArg View.modes hs
    have hblocks : s.blocks = blocks := congrArg View.blocks hs
    have hlast : s.last = last := congrArg View.last hs
    have hnot : s.followsHeader = false := by
      refine Scan.followsHeader_eq_false ?_
      rwa [hlast, hline]
    have hmember : (if s.mode = .block then s.blocks.checkMember (s.indentHere table)
        else .ok s.blocks) = .ok blocks' := by
      rw [Scan.mode, Scan.indentHere, hmodes, hblocks, hline]
      -- Between blocks no member is checked, and there is none to check it.
      cases blocks with
      | nil => exact hcheck
      | cons => exact hcheck
    refine ⟨_, _, (Scan.Accepts.className hnot hmember).act_eq, rfl, rfl, hline,
      congrArg (List.cons Activation.block) hmodes, ?_⟩
    rw [← hline]
    rfl
  have hread := reads_of_select (.className, .text word) word rfl hacts hselect rfl
  rw [count_lineFeed_of_isIdentifier (isIdentifier_of_isClassIdentifier hword)] at hread
  rw [View.between, View.between, List.length_cons, hlength]
  exact hread

/-- Behind the name of a class on its line stands the name of the instance, which may look
like the name of a class itself. -/
theorem reads_instanceName {frame : Frame} (hword : isIdentifier word = true)
    (hend : equalsCaseless word endName = false) (hrest : Stops continuesName rest)
    (hdirective : directive (word ++ rest) = none) (hassign : assignment rest = none) :
    Reads table (.between (word ++ rest) line (frame :: blocks) (some (.className, line)))
      [(.instanceName, .text word)]
      (.between rest line (frame :: blocks) (some (.instanceName, line))) := by
  have hselect : ∃ rule, Mode.block.select (word ++ rest) = some (rule, { lexeme := word }) ∧
      (rule = .className ∨ rule = .instanceName) := by
    by_cases hclass : isClassIdentifier word = true
    · exact ⟨.className, Mode.select_block_className hclass hend hrest hdirective hassign, .inl rfl⟩
    · have hother : isClassIdentifier word = false := by simpa using hclass
      exact ⟨.instanceName,
        Mode.select_block_instanceName hword hother hend hrest hdirective hassign, .inr rfl⟩
  obtain ⟨rule, hselect, hrule⟩ := hselect
  have hacts : Acts table (.between (word ++ rest) line (frame :: blocks) (some (.className, line)))
      rule { lexeme := word } (.instanceName, .text word)
      (List.replicate (frame :: blocks).length .block) (frame :: blocks) := by
    refine .token fun s hs => ?_
    have hline : s.position.line = line := congrArg View.line hs
    have hlast : s.last = some (.className, line) := congrArg View.last hs
    have hfollows : s.followsHeader = true := by
      simp [Scan.followsHeader, hlast, hline]
    have hname : s.expectsName = true := by
      simp [Scan.expectsName, hlast, hline]
    rcases hrule with rfl | rfl
    · exact (Scan.Accepts.capitalName hfollows hname).act_eq
    · exact (Scan.Accepts.instanceName hname).act_eq
  have hread := reads_of_select (.instanceName, .text word) word rfl hacts hselect rfl
  rw [count_lineFeed_of_isIdentifier hword] at hread
  exact hread

/-- At the end of the line of a header the members are expected. -/
theorem reads_headerNewline {frame : Frame} {kind : Kind}
    (hkind : kind = .className ∨ kind = .instanceName) :
    Reads table (.between ('\n' :: rest) line (frame :: blocks) (some (kind, line))) []
      (.between rest (line + 1)
        (BlockStack.expectMembers
          ((table.nextContentAfter line).map fun next => (next.indent, next.isEnd))
          (frame :: blocks))
        (some (kind, line))) := by
  have hacts : Acts table (.between ('\n' :: rest) line (frame :: blocks) (some (kind, line)))
      .headerNewline { lexeme := ['\n'] } (.newline, .nothing)
      (List.replicate (frame :: blocks).length .block)
      (BlockStack.expectMembers
        ((table.nextContentAfter line).map fun next => (next.indent, next.isEnd))
        (frame :: blocks)) := by
    intro s hs
    have hline : s.position.line = line := congrArg View.line hs
    have hblocks : s.blocks = frame :: blocks := congrArg View.blocks hs
    have hlast : s.last = some (kind, line) := congrArg View.last hs
    have hfollows : s.followsHeader = true := by
      rcases hkind with rfl | rfl <;> simp [Scan.followsHeader, hlast, hline]
    refine ⟨_, _, (Scan.Accepts.headerNewline hfollows).act_eq, rfl, rfl, hline,
      congrArg View.modes hs, ?_⟩
    rw [hblocks, hline]
  have hread := reads_of_select (.newline, .nothing) ['\n'] rfl hacts
    (Mode.select_block_newline rest) rfl
  rw [View.between, View.between, BlockStack.length_expectMembers]
  exact hread

/-! ## Attributes and ends -/

/-- The name of an attribute, with what stands behind it up to its expression. -/
theorem reads_attributeName (after : List Char) {frame : Frame} (hword : isIdentifier word = true)
    (hfree : isReserved word = false) (hrest : Stops continuesName (after ++ rest))
    (hdirective : directive (word ++ (after ++ rest)) = none)
    (hassign : assignment (after ++ rest) = some (after, rest)) (hafter : '\n' ∉ after)
    (hcheck : BlockStack.checkMember (table.indentOf line) (frame :: blocks) = .ok blocks') :
    Reads table (.between (word ++ (after ++ rest)) line (frame :: blocks) last)
      [(.attributeName, .text word)]
      { rest, line, modes := .expression {} :: List.replicate blocks'.length .block,
        blocks := blocks', last := some (.attributeName, line) } := by
  have hend : equalsCaseless word endName = false := not_endName_of_free hfree
  have hlength : blocks'.length = (frame :: blocks).length := BlockStack.length_checkMember hcheck
  have hacts : Acts table (.between ((word ++ after) ++ rest) line (frame :: blocks) last)
      .attributeName { lexeme := word ++ after, group := some ([], word) }
      (.attributeName, .text word)
      (.expression {} :: List.replicate (frame :: blocks).length .block) (frame :: blocks) := by
    intro s hs
    have hact : s.act table .attributeName { lexeme := word ++ after, group := some ([], word) } =
        (s.push (.expression {}), .ok (some (s.token .attributeName (.text word) word))) :=
      Scan.Accepts.act_eq (.attributeName hfree)
    exact ⟨_, _, hact, rfl, rfl, congrArg View.line hs,
      congrArg (List.cons (Activation.expression {})) (congrArg View.modes hs),
      congrArg View.blocks hs⟩
  have hselect := Mode.select_block_attributeName hword hend hrest hdirective hassign
  rw [← List.append_assoc] at hselect
  have hread := reads_of_select (.attributeName, .text word) (word ++ after) rfl hacts hselect
    hcheck
  rw [List.count_append, count_lineFeed_of_isIdentifier hword, List.count_eq_zero.2 hafter,
    List.append_assoc] at hread
  rw [hlength]
  exact hread

/-- The word `end` closes the innermost block, if it stands under its header. -/
theorem reads_blockEnd {frame : Frame} (hindent : frame.headerIndent = table.indentOf line) :
    Reads table (.between (endName ++ '\n' :: rest) line (frame :: blocks) last)
      [(.blockEnd, .nothing)]
      (.between ('\n' :: rest) line blocks (some (.blockEnd, line))) := by
  have hacts : Acts table (.between (endName ++ '\n' :: rest) line (frame :: blocks) last)
      .blockEnd { lexeme := endName, group := some (endName, []) } (.blockEnd, .nothing)
      (List.replicate blocks.length .block) blocks := by
    intro s hs
    have hline : s.position.line = line := congrArg View.line hs
    have hblocks : s.blocks = frame :: blocks := congrArg View.blocks hs
    have hmodes : s.modes = List.replicate (frame :: blocks).length .block :=
      congrArg View.modes hs
    have hhere : frame.headerIndent = s.indentHere table := by
      rw [Scan.indentHere, hline, hindent]
    refine ⟨_, _, (Scan.Accepts.blockEnd (by decide) hblocks hhere).act_eq, rfl, rfl, hline, ?_, rfl⟩
    exact congrArg List.tail hmodes
  exact reads_of_select (.blockEnd, .nothing) endName rfl hacts (Mode.select_block_blockEnd rest)
    rfl

/-- The end of the line of an `end`. -/
theorem reads_endNewline :
    Reads table (.between ('\n' :: rest) line blocks (some (.blockEnd, line))) []
      (.between rest (line + 1) blocks (some (.blockEnd, line))) := by
  have hselect : ∃ rule, (modeOf (List.replicate blocks.length .block)).select ('\n' :: rest) =
      some (rule, { lexeme := ['\n'] }) ∧ (rule = .newline ∨ rule = .headerNewline) := by
    cases blocks with
    | nil => exact ⟨.newline, Mode.select_default_newline rest, .inl rfl⟩
    | cons => exact ⟨.headerNewline, Mode.select_block_newline rest, .inr rfl⟩
  obtain ⟨rule, hselect, hrule⟩ := hselect
  refine reads_of_select (.newline, .nothing) ['\n'] rfl (.token fun s hs => ?_) hselect rfl
  rcases hrule with rfl | rfl
  · rfl
  · have hlast : s.last = some (.blockEnd, line) := congrArg View.last hs
    have hnot : s.followsHeader = false := by simp [Scan.followsHeader, hlast]
    exact (Scan.Accepts.memberNewline hnot).act_eq

end Between

/-! ## Whole texts -/

/-- The kinds of some tokens. -/
def kindsOf (out : List (Kind × Value)) : List Kind :=
  out.map Prod.fst

/-- What is read of a whole text are its tokens, if no two neighbours clash. -/
theorem Lexer.tokens_of_reads {source : Source} {line : Nat} {last : Option (Kind × Nat)}
    (hread : Reads source.table (.between source.text 1 [] none) out (.between [] line [] last))
    (hchain : (kindsOf (out ++ [(.endOfText, .nothing)])).IsChain Kind.Agree) :
    ∃ delivered, tokens source = .ok delivered ∧
      delivered.map Token.entry = out ++ [(.endOfText, .nothing)] := by
  obtain ⟨pieces, before, t, hrun, ht, hdone, hassembled, hentries⟩ :=
    hread (ofSource source).scan rfl rfl
  have hstep : t.step source.table =
      ({ t with isDone := true }, some (.ok (t.token .endOfText .nothing []))) :=
    (Scan.step_of_rest_nil source.table (congrArg View.rest ht)).trans
      (by rw [Scan.finish_of_modes_nil source.table (congrArg View.modes ht)])
  let piece := t.token .endOfText .nothing []
  let final : Token := { kind := .endOfText, value := .nothing, span := piece.span }
  have hkind : piece.kind = .token .endOfText := rfl
  have hsettles : Scan.Settles source.table piece { t with isDone := true }
      { t with isDone := true } := .other (by simp [hkind]) (by simp [hkind])
  have hrun' : Scan.Run source.table (ofSource source).scan (pieces ++ [piece])
      { t with isDone := true } := hrun.snoc hdone hstep hsettles
  have hassembled' : Assembled (pieces ++ [piece]) (before ++ [final]) :=
    hassembled.append (.keep (.token hkind) rfl .nil)
  have hentries' : (before ++ [final]).map Token.entry = out ++ [(.endOfText, .nothing)] := by
    rw [List.map_append, hentries]
    rfl
  have hchain' : ((before ++ [final]).map Token.kind).IsChain Kind.Agree := by
    rw [← hentries', kindsOf, List.map_map] at hchain
    exact hchain
  exact ⟨before ++ [final], tokens_of_run hrun' rfl hassembled' hchain', hentries'⟩

end BlockLexer
