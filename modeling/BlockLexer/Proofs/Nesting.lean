import BlockLexer.Proofs.Effect

/-!
# What is open between two matches

The modes and the blocks of a scan are two stacks that different actions push and pop,
and the later stages write to one of them.  This module shows that they stay in step.

* `Scan.Passes` are the states of a scan under a lexer, those within a pull included.
* `Scan.Stacked` is the shape of the modes, and `Scan.Nested` ties them to the blocks
  and to the tokens so far.
* `Scan.nested_of_run` says that every run keeps `Scan.Nested`.
-/

namespace BlockLexer

/-! ## What the tokens say -/

/-- The headers among some pieces whose blocks are still open, the innermost first. -/
def openHeaders (pieces : List Piece) : List Piece :=
  pieces.foldl
    (fun headers piece =>
      match piece.kind with
      | .token .className => piece :: headers
      | .token .blockEnd => headers.tail
      | _ => headers) []

/-- The class, the line and the indentation that a header gives to its block. -/
def Piece.header (table : LineTable) (piece : Piece) : Value × Nat × Nat :=
  (piece.value, piece.span.line, table.indentOf piece.span.line)

/-- The class, the line and the indentation of the header of an open block. -/
def Frame.header (frame : Frame) : Value × Nat × Nat :=
  (.text frame.owner, frame.line, frame.headerIndent)

/-- The depth of the brackets is what has been opened and not closed since the last
attribute. -/
def Counted (pieces : List Piece) (brackets : Brackets) : Prop :=
  ∃ before name after, pieces = before ++ name :: after ∧
    name.kind = .token .attributeName ∧ .attributeName ∉ emitted after ∧
    ∀ bracket : Bracket, (emitted after).count bracket.opening =
      brackets.depth bracket + (emitted after).count bracket.closing

theorem openHeaders_append_singleton (pieces : List Piece) (piece : Piece) :
    openHeaders (pieces ++ [piece]) =
      match piece.kind with
      | .token .className => piece :: openHeaders pieces
      | .token .blockEnd => (openHeaders pieces).tail
      | _ => openHeaders pieces := by
  unfold openHeaders
  rw [List.foldl_append]
  rfl

/-- Only headers and ends change the open headers. -/
theorem openHeaders_append_of_ne {pieces : List Piece} {piece : Piece}
    (hclass : piece.kind ≠ .token .className) (hend : piece.kind ≠ .token .blockEnd) :
    openHeaders (pieces ++ [piece]) = openHeaders pieces := by
  rw [openHeaders_append_singleton]
  split <;> simp_all

/-- A kind that opens and closes neither a block nor a bracket, and does not end the text. -/
def Kind.isNeutral : Kind → Bool
  | className | attributeName | blockEnd | endOfText => false
  | openParen | closeParen | openArray | closeArray | openDict | closeDict => false
  | _ => true

theorem Bracket.isNeutral_opening (bracket : Bracket) : bracket.opening.isNeutral = false := by
  cases bracket <;> rfl

theorem Bracket.isNeutral_closing (bracket : Bracket) : bracket.closing.isNeutral = false := by
  cases bracket <;> rfl

theorem Kind.IsTerm.isNeutral {kind : Kind} (h : kind.IsTerm) : kind.isNeutral = true := by
  revert h
  cases kind <;> decide

/-- Behind the name of an attribute nothing is open yet. -/
theorem counted_of_attributeName (pieces : List Piece) {piece : Piece}
    (hkind : piece.kind = .token .attributeName) : Counted (pieces ++ [piece]) {} :=
  ⟨pieces, piece, [], rfl, hkind, by simp, fun bracket => by cases bracket <;> rfl⟩

/-- Pieces that change the depth of the brackets by what they open and close. -/
theorem Counted.append {pieces more : List Piece} {brackets brackets' : Brackets}
    (h : Counted pieces brackets) (hname : .attributeName ∉ emitted more)
    (hdepth : ∀ bracket : Bracket,
      brackets.depth bracket + (emitted more).count bracket.opening =
        brackets'.depth bracket + (emitted more).count bracket.closing) :
    Counted (pieces ++ more) brackets' := by
  obtain ⟨before, name, after, rfl, hkind, hafter, hcount⟩ := h
  refine ⟨before, name, after ++ more, by simp, hkind, ?_, fun bracket => ?_⟩
  · rw [emitted_append, List.mem_append]
    exact fun hmem => hmem.elim hafter hname
  · have hbefore := hcount bracket
    have hmore := hdepth bracket
    rw [emitted_append, List.count_append, List.count_append]
    omega

/-- The blocks that a member is checked in stay the same, but for what they require. -/
theorem BlockStack.map_header_checkMember {blocks blocks' : BlockStack} {actual : Nat}
    (h : blocks.checkMember actual = .ok blocks') :
    blocks'.map Frame.header = blocks.map Frame.header := by
  unfold checkMember at h
  split at h
  · cases h
    rfl
  split at h
  · cases h
  split at h
  · cases h
    rfl
  · split at h <;> cases h
    rfl

theorem BlockStack.length_checkMember {blocks blocks' : BlockStack} {actual : Nat}
    (h : blocks.checkMember actual = .ok blocks') : blocks'.length = blocks.length := by
  have hlength := congrArg List.length (map_header_checkMember h)
  rwa [List.length_map, List.length_map] at hlength

@[simp] theorem BlockStack.map_header_expectMembers (next : Option (Nat × Bool))
    (blocks : BlockStack) :
    (blocks.expectMembers next).map Frame.header = blocks.map Frame.header := by
  unfold expectMembers
  split
  · rfl
  · split <;> rfl

@[simp] theorem BlockStack.length_expectMembers (next : Option (Nat × Bool))
    (blocks : BlockStack) : (blocks.expectMembers next).length = blocks.length := by
  have h := congrArg List.length (map_header_expectMembers next blocks)
  rwa [List.length_map, List.length_map] at h

namespace Scan

variable {table : LineTable} {s t u : Scan} {piece? : Option Piece} {pieces : List Piece}

/-! ## The states of a scan -/

/-- The states that a scan passes under a lexer before any fault, with the pieces that
it has yielded: those between two matches, and those behind a match whose piece the
later stages have not seen yet. -/
inductive Passes (table : LineTable) (start : Scan) : List Piece → Scan → Prop
  | settled {pieces : List Piece} {s : Scan} (hrun : Run table start pieces s) :
      Passes table start pieces s
  | yielded {pieces : List Piece} {piece : Piece} {s t : Scan} (hrun : Run table start pieces s)
      (hs : s.isDone = false) (hstep : s.step table = (t, some (.ok piece))) :
      Passes table start (pieces ++ [piece]) t

/-- The modes of a scan in `n` blocks: the blocks, and in the innermost at most a body,
an expression, or a string in an expression. -/
inductive Stacked (n : Nat) (modes : List Activation) : Prop
  | blocks (hmodes : modes = List.replicate n .block)
  | body (body : OpenBody) (hn : 0 < n) (hmodes : modes = .body body :: List.replicate n .block)
  | expression (brackets : Brackets) (hn : 0 < n)
      (hmodes : modes = .expression brackets :: List.replicate n .block)
  | string (style : QuoteStyle) (raw : Bool) (line column : Nat) (brackets : Brackets)
      (hn : 0 < n) (hmodes : modes = .string style raw line column :: .expression brackets ::
        List.replicate n .block)

/-- What holds of a scan that has yielded some pieces. -/
structure Nested (table : LineTable) (pieces : List Piece) (s : Scan) : Prop where
  /-- There are as many block modes as open blocks. -/
  stacked : Stacked s.blocks.length s.modes
  /-- The open blocks are the headers without the ends. -/
  count : s.blocks.length + (emitted pieces).count .blockEnd = (emitted pieces).count .className
  /-- Every open block remembers its own header. -/
  headers : s.blocks.map Frame.header = (openHeaders pieces).map (Piece.header table)
  /-- An open expression knows its open brackets. -/
  brackets : ∀ brackets, .expression brackets ∈ s.modes → Counted pieces brackets
  /-- At the end of the text nothing is open. -/
  ended : .endOfText ∈ emitted pieces → s.isDone = true ∧ s.blocks = []

/-! ## The modes -/

theorem Stacked.eq_replicate {n : Nat} {modes : List Activation} (h : Stacked n modes)
    (hmode : modeOf modes = .default ∨ modeOf modes = .block) :
    modes = List.replicate n .block := by
  rcases h with h | ⟨_, _, rfl⟩ | ⟨_, _, rfl⟩ | ⟨_, _, _, _, _, _, rfl⟩
  · exact h
  all_goals simp [modeOf, Activation.mode] at hmode

/-- Where members stand a block is open. -/
theorem Stacked.pos_of_block {n : Nat} {modes : List Activation} (h : Stacked n modes)
    (hmode : modeOf modes = .block) : 0 < n := by
  rcases h with rfl | ⟨-, hn, -⟩ | ⟨-, hn, -⟩ | ⟨-, -, -, -, -, hn, -⟩
  · rcases n with _ | n
    · simp [modeOf] at hmode
    · exact Nat.succ_pos n
  all_goals exact hn

/-- Between blocks no block is open. -/
theorem Stacked.eq_zero_of_default {n : Nat} {modes : List Activation} (h : Stacked n modes)
    (hmode : modeOf modes = .default) : n = 0 := by
  rw [h.eq_replicate (.inl hmode)] at hmode
  cases n with
  | zero => rfl
  | succ n => cases hmode

theorem Stacked.of_block {n : Nat} {outer : List Activation} (h : Stacked n (.block :: outer)) :
    outer = List.replicate (n - 1) .block := by
  have h := h.eq_replicate (.inr rfl)
  cases n with
  | zero => cases h
  | succ n => exact (List.cons.inj h).2

theorem Stacked.of_expression {n : Nat} {brackets : Brackets} {outer : List Activation}
    (h : Stacked n (.expression brackets :: outer)) :
    0 < n ∧ outer = List.replicate n .block := by
  rcases h with h | ⟨_, hn, h⟩ | ⟨_, hn, h⟩ | ⟨_, _, _, _, _, hn, h⟩
  · cases n <;> cases h
  · cases h
  · exact ⟨hn, (List.cons.inj h).2⟩
  · cases h

theorem Stacked.of_body {n : Nat} {body : OpenBody} {outer : List Activation}
    (h : Stacked n (.body body :: outer)) : 0 < n ∧ outer = List.replicate n .block := by
  rcases h with h | ⟨_, hn, h⟩ | ⟨_, hn, h⟩ | ⟨_, _, _, _, _, hn, h⟩
  · cases n <;> cases h
  · exact ⟨hn, (List.cons.inj h).2⟩
  · cases h
  · cases h

theorem Stacked.of_string {n : Nat} {style : QuoteStyle} {raw : Bool} {line column : Nat}
    {outer : List Activation} (h : Stacked n (.string style raw line column :: outer)) :
    ∃ brackets, 0 < n ∧ outer = .expression brackets :: List.replicate n .block := by
  rcases h with h | ⟨_, _, h⟩ | ⟨_, _, h⟩ | ⟨_, _, _, _, brackets, hn, h⟩
  · cases n <;> cases h
  · cases h
  · cases h
  · exact ⟨brackets, hn, (List.cons.inj h).2⟩

/-- The blocks of a member are checked as far as the block around it goes. -/
theorem map_header_of_member {blocks : BlockStack} {indent : Nat}
    (h : (if s.mode = .block then s.blocks.checkMember indent else .ok s.blocks) = .ok blocks) :
    blocks.map Frame.header = s.blocks.map Frame.header := by
  split at h
  · exact BlockStack.map_header_checkMember h
  · exact congrArg _ (Except.ok.inj h).symm

/-- Every effect keeps the shape of the modes. -/
theorem stacked_of_effect (he : Effect table s t piece?) (h : Stacked s.blocks.length s.modes) :
    Stacked t.blocks.length t.modes := by
  cases he with
  | still _ hmodes hblocks | named _ _ _ hmodes hblocks | term _ _ _ hmodes hblocks =>
    rw [hmodes, hblocks]
    exact h
  | membersBegin next _ hmodes hblocks =>
    rw [hmodes, hblocks, BlockStack.length_expectMembers]
    exact h
  | @blockOpens _ owner blocks _ _ _ hmode hmember hmodes hblocks =>
    have hlength : blocks.length = s.blocks.length := by
      simpa using congrArg List.length (map_header_of_member hmember)
    rw [hmodes, hblocks, h.eq_replicate hmode, List.length_cons, hlength]
    exact .blocks rfl
  | blockCloses _ _ hmodes hblocks _ =>
    rw [hmodes, hblocks, List.length_cons] at h
    exact .blocks h.of_block
  | expressionOpens _ _ hmode hmodes hblocks =>
    rw [hmodes, hblocks, h.eq_replicate (.inr hmode)]
    exact .expression {} (h.pos_of_block hmode) rfl
  | expressionCloses _ _ hmodes hblocks =>
    rw [hmodes] at h
    rw [hblocks]
    exact .blocks h.of_expression.2
  | bracketTurns _ _ hmode hmodes hblocks =>
    rw [hmode] at h
    rw [hmodes, hblocks, h.of_expression.2]
    exact .expression _ h.of_expression.1 rfl
  | bodyOpens hmode hmodes hblocks =>
    rw [hmodes, hblocks, h.eq_replicate (.inr hmode)]
    exact .body _ (h.pos_of_block hmode) rfl
  | bodyCloses _ hmodes hblocks =>
    rw [hmodes] at h
    rw [hblocks]
    exact .blocks h.of_body.2
  | stringOpens _ hmode hmodes hblocks =>
    obtain ⟨brackets, outer, houter⟩ := exists_of_mode_eq_expression hmode
    rw [houter] at h
    rw [hmodes, hblocks, houter, h.of_expression.2]
    exact .string _ _ _ _ brackets h.of_expression.1 rfl
  | stringCloses _ hmodes hblocks =>
    rw [hmodes] at h
    obtain ⟨brackets, hpos, houter⟩ := h.of_string
    rw [hblocks, houter]
    exact .expression brackets hpos rfl

/-! ## The tokens -/

theorem emitted_of_quiet (h : ∀ piece ∈ piece?, piece.kind.isQuiet = true) :
    emitted piece?.toList = [] := by
  cases piece? with
  | none => rfl
  | some piece => exact emitted_singleton_none (PieceKind.notedKind?_of_isQuiet (h piece rfl))

/-- Before its end a scan has not yielded the end of the text. -/
theorem Nested.not_ended {more : List Piece} (h : Nested table pieces s) (hs : s.isDone = false)
    (hmore : .endOfText ∉ emitted more) : .endOfText ∉ emitted (pieces ++ more) := by
  rw [emitted_append, List.mem_append]
  rintro (hmem | hmem)
  · exact absurd (h.ended hmem).1 (by simp [hs])
  · exact hmore hmem

/-- A step that opens and closes neither a block nor a bracket. -/
theorem Nested.of_neutral (h : Nested table pieces s) (hs : s.isDone = false)
    (hstacked : Stacked t.blocks.length t.modes)
    (hneutral : ∀ kind ∈ emitted piece?.toList, kind.isNeutral = true)
    (hblocks : t.blocks.map Frame.header = s.blocks.map Frame.header)
    (hmodes : ∀ brackets, .expression brackets ∈ t.modes → .expression brackets ∈ s.modes) :
    Nested table (pieces ++ piece?.toList) t := by
  have hnone (kind : Kind) (hkind : kind.isNeutral = false) : kind ∉ emitted piece?.toList := by
    intro hmem
    simp [hneutral kind hmem] at hkind
  have hlength : t.blocks.length = s.blocks.length := by
    simpa using congrArg List.length hblocks
  refine ⟨hstacked, ?_, ?_, fun brackets hbrackets => ?_,
    fun hended => absurd hended (h.not_ended hs (hnone .endOfText rfl))⟩
  · rw [hlength, emitted_append, List.count_append, List.count_append,
      List.count_eq_zero_of_not_mem (hnone .blockEnd rfl),
      List.count_eq_zero_of_not_mem (hnone .className rfl)]
    exact h.count
  · rw [hblocks, h.headers]
    cases piece? with
    | none => simp
    | some piece =>
      have hother (kind : Kind) (hkept : kind.isFiltered = false) (hkind : kind.isNeutral = false) :
          piece.kind ≠ .token kind := by
        intro he
        refine hnone kind hkind ?_
        rw [Option.toList_some, emitted_singleton he hkept]
        exact List.mem_singleton_self kind
      rw [Option.toList_some,
        openHeaders_append_of_ne (hother .className rfl rfl) (hother .blockEnd rfl rfl)]
  · refine (h.brackets brackets (hmodes brackets hbrackets)).append (hnone .attributeName rfl) ?_
    intro bracket
    rw [List.count_eq_zero_of_not_mem (hnone _ bracket.isNeutral_opening),
      List.count_eq_zero_of_not_mem (hnone _ bracket.isNeutral_closing)]

/-- A header opens a block and becomes the innermost of the open headers. -/
theorem Nested.of_className {piece : Piece} {owner : List Char} {blocks : BlockStack}
    (h : Nested table pieces s) (hs : s.isDone = false) (hstacked : Stacked t.blocks.length t.modes)
    (hkind : piece.kind = .token .className) (hvalue : piece.value = .text owner)
    (hblocks : t.blocks =
      { owner, line := piece.span.line, headerIndent := table.indentOf piece.span.line } :: blocks)
    (hsame : blocks.map Frame.header = s.blocks.map Frame.header)
    (hmodes : t.modes = List.replicate t.blocks.length .block) :
    Nested table (pieces ++ [piece]) t := by
  have hlength : t.blocks.length = s.blocks.length + 1 := by
    have hlength := congrArg List.length hsame
    rw [List.length_map, List.length_map] at hlength
    rw [hblocks, List.length_cons, hlength]
  have hended : .endOfText ∉ emitted (pieces ++ [piece]) :=
    h.not_ended hs (by rw [emitted_singleton hkind rfl]; decide)
  refine ⟨hstacked, ?_, ?_, fun brackets hbrackets => ?_, fun he => absurd he hended⟩
  · have hcount := h.count
    rw [emitted_append, emitted_singleton hkind rfl, List.count_append, List.count_append,
      List.count_singleton_self]
    rw [List.count_eq_zero_of_not_mem (l := [Kind.className]) (by decide)]
    omega
  · rw [openHeaders_append_singleton, hkind, hblocks, List.map_cons, List.map_cons, hsame,
      h.headers, Piece.header, hvalue]
    rfl
  · rw [hmodes] at hbrackets
    cases List.eq_of_mem_replicate hbrackets

/-- An end closes the innermost block and takes the innermost of the open headers away. -/
theorem Nested.of_blockEnd {piece : Piece} {frame : Frame}
    (h : Nested table pieces s) (hs : s.isDone = false) (hstacked : Stacked t.blocks.length t.modes)
    (hkind : piece.kind = .token .blockEnd) (hblocks : s.blocks = frame :: t.blocks)
    (hmodes : s.modes = .block :: t.modes) : Nested table (pieces ++ [piece]) t := by
  have hended : .endOfText ∉ emitted (pieces ++ [piece]) :=
    h.not_ended hs (by rw [emitted_singleton hkind rfl]; decide)
  refine ⟨hstacked, ?_, ?_, fun brackets hbrackets => ?_, fun he => absurd he hended⟩
  · have hcount := h.count
    rw [hblocks, List.length_cons] at hcount
    rw [emitted_append, emitted_singleton hkind rfl, List.count_append, List.count_append,
      List.count_singleton_self]
    rw [List.count_eq_zero_of_not_mem (l := [Kind.blockEnd]) (by decide)]
    omega
  · have hheaders := h.headers
    rw [hblocks, List.map_cons] at hheaders
    rw [openHeaders_append_singleton, hkind, List.map_tail, ← hheaders, List.tail_cons]
  · have hstacked' := h.stacked
    rw [hmodes] at hstacked'
    rw [hstacked'.of_block] at hbrackets
    cases List.eq_of_mem_replicate hbrackets

/-- The name of an attribute opens an expression in which nothing is open. -/
theorem Nested.of_attributeName {piece : Piece} (h : Nested table pieces s)
    (hs : s.isDone = false) (hstacked : Stacked t.blocks.length t.modes)
    (hkind : piece.kind = .token .attributeName) (hmode : s.mode = .block)
    (hmodes : t.modes = .expression {} :: s.modes) (hblocks : t.blocks = s.blocks) :
    Nested table (pieces ++ [piece]) t := by
  have hended : .endOfText ∉ emitted (pieces ++ [piece]) :=
    h.not_ended hs (by rw [emitted_singleton hkind rfl]; decide)
  refine ⟨hstacked, ?_, ?_, fun brackets hbrackets => ?_, fun he => absurd he hended⟩
  · rw [hblocks, emitted_append, emitted_singleton hkind rfl, List.count_append, List.count_append,
      List.count_eq_zero_of_not_mem (a := Kind.blockEnd) (l := [Kind.attributeName]) (by decide),
      List.count_eq_zero_of_not_mem (a := Kind.className) (l := [Kind.attributeName]) (by decide)]
    exact h.count
  · rw [hblocks, h.headers, openHeaders_append_of_ne (by rw [hkind]; decide)
      (by rw [hkind]; decide)]
  · rw [hmodes, h.stacked.eq_replicate (.inr hmode), List.mem_cons] at hbrackets
    rcases hbrackets with hbrackets | hbrackets
    · obtain rfl := Activation.expression.inj hbrackets
      exact counted_of_attributeName pieces hkind
    · cases List.eq_of_mem_replicate hbrackets

/-- A bracket is counted in the innermost expression. -/
theorem Nested.of_bracket {piece : Piece} {kind : Kind} {brackets brackets' : Brackets}
    {outer : List Activation} (h : Nested table pieces s) (hs : s.isDone = false)
    (hstacked : Stacked t.blocks.length t.modes) (hkind : piece.kind = .token kind)
    (hturns : brackets.Turns brackets' kind) (hmode : s.modes = .expression brackets :: outer)
    (hmodes : t.modes = .expression brackets' :: outer) (hblocks : t.blocks = s.blocks) :
    Nested table (pieces ++ [piece]) t := by
  have hne (other : Kind) (hother : other.category = .structural) : kind ≠ other := by
    rintro rfl
    exact absurd (hturns.category.symm.trans hother) (by decide)
  have hnone (other : Kind) (hother : other.category = .structural) :
      other ∉ emitted [piece] := by
    rw [emitted_singleton hkind hturns.isFiltered, List.mem_singleton]
    exact (hne other hother).symm
  refine ⟨hstacked, ?_, ?_, fun open' hopen => ?_,
    fun he => absurd he (h.not_ended hs (hnone .endOfText rfl))⟩
  · rw [hblocks, emitted_append, List.count_append, List.count_append,
      List.count_eq_zero_of_not_mem (hnone .blockEnd rfl),
      List.count_eq_zero_of_not_mem (hnone .className rfl)]
    exact h.count
  · rw [hblocks, h.headers, openHeaders_append_of_ne]
    · rw [hkind]
      exact fun he => hne .className rfl (PieceKind.token.inj he)
    · rw [hkind]
      exact fun he => hne .blockEnd rfl (PieceKind.token.inj he)
  · have hstacked' := h.stacked
    rw [hmode] at hstacked'
    rw [hmodes, hstacked'.of_expression.2, List.mem_cons] at hopen
    rcases hopen with hopen | hopen
    · obtain rfl := Activation.expression.inj hopen
      have hbefore := h.brackets brackets (by rw [hmode]; exact List.mem_cons_self)
      refine hbefore.append (hnone .attributeName rfl) fun other => ?_
      rw [emitted_singleton hkind hturns.isFiltered]
      exact hturns.depth_eq other
    · cases List.eq_of_mem_replicate hopen

/-! ## Steps and runs -/

theorem nested_of_effect (h : Nested table pieces s) (hs : s.isDone = false)
    (he : Effect table s t piece?) : Nested table (pieces ++ piece?.toList) t := by
  have hstacked := stacked_of_effect he h.stacked
  cases he with
  | blockOpens hkind hvalue hline hmode hmember hmodes hblocks =>
    rw [← hline] at hblocks
    refine h.of_className hs hstacked hkind hvalue hblocks (map_header_of_member hmember) ?_
    have hlength := hstacked.eq_replicate
    exact hlength (.inr (by rw [hmodes]; rfl))
  | blockCloses hkind _ hmodes hblocks _ => exact h.of_blockEnd hs hstacked hkind hblocks hmodes
  | expressionOpens hkind _ hmode hmodes hblocks =>
    exact h.of_attributeName hs hstacked hkind hmode hmodes hblocks
  | bracketTurns hkind hturns hmode hmodes hblocks =>
    exact h.of_bracket hs hstacked hkind hturns hmode hmodes hblocks
  | still hquiet hmodes hblocks =>
    refine h.of_neutral hs hstacked ?_ (congrArg _ hblocks) (fun _ hmem => hmodes ▸ hmem)
    rw [emitted_of_quiet hquiet]
    simp
  | membersBegin next hkind hmodes hblocks =>
    refine h.of_neutral hs hstacked ?_ ?_ (fun _ hmem => hmodes ▸ hmem)
    · rw [Option.toList_some, emitted_singleton_filtered hkind rfl]
      simp
    · rw [hblocks, BlockStack.map_header_expectMembers]
  | named hkind _ _ hmodes hblocks =>
    refine h.of_neutral hs hstacked ?_ (congrArg _ hblocks) (fun _ hmem => hmodes ▸ hmem)
    rw [Option.toList_some, emitted_singleton hkind rfl]
    simp [Kind.isNeutral]
  | expressionCloses hkind _ hmodes hblocks =>
    refine h.of_neutral hs hstacked ?_ (congrArg _ hblocks)
      (fun _ hmem => hmodes ▸ List.mem_cons_of_mem _ hmem)
    rw [Option.toList_some, emitted_singleton_filtered hkind rfl]
    simp
  | term hkind hterm _ hmodes hblocks =>
    refine h.of_neutral hs hstacked ?_ (congrArg _ hblocks) (fun _ hmem => hmodes ▸ hmem)
    rw [Option.toList_some, emitted_singleton hkind hterm.isFiltered]
    simpa using hterm.isNeutral
  | bodyOpens _ hmodes hblocks =>
    refine h.of_neutral hs hstacked (by simp) (congrArg _ hblocks) fun _ hmem => ?_
    rw [hmodes] at hmem
    simpa using hmem
  | bodyCloses hkind hmodes hblocks =>
    refine h.of_neutral hs hstacked ?_ (congrArg _ hblocks)
      (fun _ hmem => hmodes ▸ List.mem_cons_of_mem _ hmem)
    rw [Option.toList_some, emitted_singleton hkind rfl]
    simp [Kind.isNeutral]
  | stringOpens hkind _ hmodes hblocks =>
    refine h.of_neutral hs hstacked ?_ (congrArg _ hblocks) fun _ hmem => ?_
    · rw [Option.toList_some, emitted_singleton_none (by rw [hkind]; rfl)]
      simp
    · rw [hmodes] at hmem
      simpa using hmem
  | stringCloses hkind hmodes hblocks =>
    refine h.of_neutral hs hstacked ?_ (congrArg _ hblocks)
      (fun _ hmem => hmodes ▸ List.mem_cons_of_mem _ hmem)
    rw [Option.toList_some, emitted_singleton_stringEnd hkind]
    simp [Kind.isNeutral]

/-- The later stages leave the headers of the open blocks alone. -/
theorem map_header_of_settles {piece : Piece} (h : Settles table piece s t) :
    t.blocks.map Frame.header = s.blocks.map Frame.header := by
  cases h with
  | member _ hcheck => exact BlockStack.map_header_checkMember hcheck
  | string _ _ | other _ _ => rfl

/-- What the later stages do to a scan keeps it nested. -/
theorem nested_of_settles {piece : Piece} (hsettles : Settles table piece s t)
    (h : Nested table pieces s) : Nested table pieces t := by
  obtain ⟨hmodes, -, hdone⟩ := hsettles.same
  have hheaders := map_header_of_settles hsettles
  have hlength : t.blocks.length = s.blocks.length := by
    simpa using congrArg List.length hheaders
  refine ⟨?_, ?_, hheaders.trans h.headers, fun brackets hbrackets => ?_, fun hended => ?_⟩
  · rw [hlength, hmodes]
    exact h.stacked
  · rw [hlength]
    exact h.count
  · rw [hmodes] at hbrackets
    exact h.brackets brackets hbrackets
  · obtain ⟨hs, hblocks⟩ := h.ended hended
    rw [hblocks] at hlength
    exact ⟨hdone.trans hs, List.length_eq_zero_iff.1 hlength⟩

/-- A step that yields a piece keeps a scan nested. -/
theorem nested_of_step {piece : Piece} (h : Nested table pieces s) (hs : s.isDone = false)
    (hstep : s.step table = (t, some (.ok piece))) : Nested table (pieces ++ [piece]) t := by
  rcases effect_of_step hs hstep with ⟨hmodes, hkind, rfl⟩ | ⟨-, he, -⟩
  · -- The end of the text is read where no mode is open.
    have hblocks : s.blocks = [] :=
      List.length_eq_zero_iff.1 (h.stacked.eq_zero_of_default (by rw [hmodes]; rfl))
    refine ⟨h.stacked, ?_, ?_, ?_, fun _ => ⟨rfl, hblocks⟩⟩
    · rw [emitted_append, emitted_singleton hkind rfl, List.count_append, List.count_append]
      exact h.count
    · rw [openHeaders_append_of_ne (by rw [hkind]; decide) (by rw [hkind]; decide)]
      exact h.headers
    · intro brackets hbrackets
      simp [hmodes] at hbrackets
  · exact nested_of_effect h hs he

/-- Every run keeps a scan nested. -/
theorem nested_of_run {before : List Piece} (hrun : Run table s pieces t)
    (h : Nested table before s) : Nested table (before ++ pieces) t := by
  induction hrun generalizing before with
  | refl s => simpa using h
  | quiet hs hstep _ ih =>
    have hnested := nested_of_effect h hs (effect_of_step_quiet hstep).1
    rw [Option.toList_none, List.append_nil] at hnested
    exact ih hnested
  | piece hs hstep hsettles _ ih =>
    have hnested := nested_of_settles hsettles (nested_of_step h hs hstep)
    simpa using ih hnested

/-- A scan that has not begun is nested. -/
theorem nested_of_start (hmodes : s.modes = []) (hblocks : s.blocks = []) :
    Nested table [] s := by
  refine ⟨.blocks ?_, ?_, ?_, ?_, ?_⟩ <;> simp [hmodes, hblocks, openHeaders]

theorem nested_of_passes (h : Passes table s pieces t) (hmodes : s.modes = [])
    (hblocks : s.blocks = []) : Nested table pieces t := by
  cases h with
  | settled hrun => exact nested_of_run hrun (nested_of_start hmodes hblocks)
  | yielded hrun hs hstep =>
    exact nested_of_step (nested_of_run hrun (nested_of_start hmodes hblocks)) hs hstep

end Scan

/-! ## Lexers -/

namespace Lexer

open Scan (Passes Nested)

/-- In every state of a scan under a lexer, before any fault, the modes and the open
blocks are in step with each other and with the tokens so far; and behind every row of
tokens a lexer has as many open blocks as the tokens have headers without an end, so
none behind the end of the text. -/
theorem modes_blocks_in_step (source : Source) :
    (∀ pieces s, Passes source.table (ofSource source).scan pieces s →
      Nested source.table pieces s) ∧
    ∀ tokens lexer, stage.Yields (ofSource source) tokens lexer →
      (∃ pieces, Passes source.table (ofSource source).scan pieces lexer.scan ∧
        Delivered pieces tokens) ∧
      lexer.openBlocks + (tokens.map Token.kind).count .blockEnd =
        (tokens.map Token.kind).count .className ∧
      (.endOfText ∈ tokens.map Token.kind → lexer.openBlocks = 0) := by
  refine ⟨fun pieces s h => Scan.nested_of_passes h rfl rfl, fun tokens lexer h => ?_⟩
  obtain ⟨pieces, hrun, hdelivered, -⟩ := run_of_yields h
  have hpasses : Passes source.table (ofSource source).scan pieces lexer.scan := .settled hrun
  have hnested := Scan.nested_of_passes hpasses rfl rfl
  rw [hdelivered.map_kind]
  refine ⟨⟨pieces, hpasses, hdelivered⟩, hnested.count, fun hended => ?_⟩
  exact List.length_eq_zero_iff.2 (hnested.ended hended).2

/-- A block of two lines, read to its end. -/
theorem modes_blocks_in_step_of_two_lines :
    let source := Source.ofLines {} textOrigin
      [{ chars := ['A'], origin := { path := textOrigin, line := 1 } },
        { chars := ['e', 'n', 'd'], origin := { path := textOrigin, line := 2 } }]
    let tokens : List Token :=
      [{ kind := .className, value := .text ['A'], span := ⟨0, 1, 1, 1⟩ },
        { kind := .blockEnd, value := .nothing, span := ⟨2, 5, 2, 1⟩ },
        { kind := .endOfText, value := .nothing, span := ⟨6, 6, 3, 1⟩ }]
    ∃ pieces lexer, stage.Yields (ofSource source) tokens lexer ∧ lexer.openBlocks = 0 ∧
      Nested source.table pieces lexer.scan := by
  intro source tokens
  have hcollect : stage.collect (ofSource source) = .ok tokens := by decide +kernel
  obtain ⟨lexer, last, hyields, -⟩ := Stage.yields_of_collect hcollect
  obtain ⟨hstates, hpulls⟩ := modes_blocks_in_step source
  obtain ⟨⟨pieces, hpasses, -⟩, -, hclosed⟩ := hpulls tokens lexer hyields
  exact ⟨pieces, lexer, hyields, hclosed (by decide), hstates pieces lexer.scan hpasses⟩

end Lexer

end BlockLexer
