import BlockLexer.Proofs.Printed

/-!
# Lexing undoes printing

The tokens of a forest of blocks are found again in its text, whatever the files and the
settings are.

* `Passes` says that some lines are read when others follow, from the open blocks on one
  side to those on the other.
* `passes_header`, `passes_attribute` and `passes_blockEnd` read one line, and
  `passes_members`, `passes_block` and `passes_forest` go over the trees by induction.
* `tokenize_of_passes` has the tokens of lines that are read, and `tokenize_text` is the
  round trip.
-/

namespace BlockLexer

open Text Lexeme Grammar

/-! ## Reading lines -/

/-- Between members these lines are read, when these others follow: they deliver tokens
with these kinds and values, and the blocks that are open then are as said. -/
def Passes (table : LineTable) (blocks : BlockStack) (lines more : List (List Char))
    (out : List (Kind × Value)) (post : BlockStack → Prop) : Prop :=
  ∀ line last, table.Ahead line (lines ++ more) → IsPast last line →
    ∃ blocks' last', post blocks' ∧ IsPast last' (line + lines.length) ∧
      Reads table (.between (unlines (lines ++ more)) line blocks last) out
        (.between (unlines more) (line + lines.length) blocks' last')

variable {table : LineTable} {blocks blocks' outer : BlockStack}
  {lines lines' more : List (List Char)} {out out' : List (Kind × Value)}
  {post post' : BlockStack → Prop}

theorem Passes.nil (hpost : post blocks) : Passes table blocks [] more [] post :=
  fun _ last _ hpast => ⟨blocks, last, hpost, hpast, .refl _⟩

theorem Passes.append (h : Passes table blocks lines (lines' ++ more) out post)
    (h' : ∀ blocks', post blocks' → Passes table blocks' lines' more out' post') :
    Passes table blocks (lines ++ lines') more (out ++ out') post' := by
  intro line last hahead hpast
  rw [List.append_assoc] at hahead
  obtain ⟨middle, last', hmiddle, hpast', hread⟩ := h line last hahead hpast
  obtain ⟨blocks', last'', hpost, hpast'', hread'⟩ := h' middle hmiddle _ last' hahead.append hpast'
  refine ⟨blocks', last'', hpost, ?_, ?_⟩
  · rw [List.length_append, ← Nat.add_assoc]
    exact hpast''
  · rw [List.append_assoc, List.length_append, ← Nat.add_assoc]
    exact hread.trans hread'

/-! ## Blocks that are open -/

/-- A block is open whose header stands at one indentation, whose members stand at another
as soon as that is fixed, and around which these blocks are open. -/
def IsOpen (indent inner : Nat) (outer blocks : BlockStack) : Prop :=
  ∃ frame : Frame, blocks = frame :: outer ∧ frame.headerIndent = indent ∧
    (frame.required = none ∨ frame.required = some inner)

/-- A member at its place is accepted. -/
theorem IsOpen.exists_checkMember {indent inner : Nat} (h : IsOpen indent inner outer blocks)
    (hle : indent ≤ inner) :
    ∃ blocks', blocks.checkMember inner = .ok blocks' ∧ IsOpen indent inner outer blocks' := by
  obtain ⟨frame, rfl, hindent, hrequired⟩ := h
  have hbounded : ¬(frame.bounded && decide (inner < frame.headerIndent)) = true := by
    have hnot : ¬inner < frame.headerIndent := by omega
    simp [hnot]
  rcases hrequired with hnone | hsome
  · refine ⟨{ frame with required := some inner } :: outer, ?_, _, rfl, hindent, .inr rfl⟩
    rw [BlockStack.checkMember, if_neg hbounded, hnone]
  · refine ⟨frame :: outer, ?_, frame, rfl, hindent, .inr hsome⟩
    rw [BlockStack.checkMember, if_neg hbounded, hsome]
    exact if_pos rfl

/-- A new block expects its members where they are written. -/
theorem isOpen_expectMembers {frame : Frame} {indent inner : Nat} {next : Nat × Bool}
    (hindent : frame.headerIndent = indent) (hrequired : frame.required = none)
    (hnext : next.2 = false → next.1 = inner) :
    IsOpen indent inner outer (BlockStack.expectMembers (some next) (frame :: outer)) := by
  obtain ⟨width, isEnd⟩ := next
  have hnot : ¬frame.required.isSome = true := by simp [hrequired]
  cases isEnd with
  | true =>
    have hstack : BlockStack.expectMembers (some (width, true)) (frame :: outer) =
        { frame with required := none, bounded := true } :: outer := if_neg hnot
    exact ⟨_, hstack, hindent, .inl rfl⟩
  | false =>
    obtain rfl : width = inner := hnext rfl
    have hstack : BlockStack.expectMembers (some (width, false)) (frame :: outer) =
        { frame with required := some width, bounded := true } :: outer := if_neg hnot
    exact ⟨_, hstack, hindent, .inr rfl⟩

/-! ## Lines -/

variable {indent inner : Nat}

/-- The blanks of a line are read, and a line that is read from its name on is read. -/
theorem passes_word {word tail : List Char} (hname : isIdentifier word = true)
    (hdirective : directive (List.replicate indent ' ' ++ (word ++ (tail ++ '\n' :: unlines more))) =
      none)
    (hread : ∀ line last, table.Ahead line (indented indent (word ++ tail) :: more) →
      table.indentOf line = indent → IsPast last line →
      ∃ blocks' last', post blocks' ∧ IsPast last' (line + 1) ∧
        Reads table (.between (word ++ (tail ++ '\n' :: unlines more)) line blocks last) out
          (.between (unlines more) (line + 1) blocks' last')) :
    Passes table blocks [indented indent (word ++ tail)] more out post := by
  intro line last hahead hpast
  have hwidth : table.indentOf line = indent := by
    rw [hahead.indentOf_eq, indentWidth_indented hname]
  obtain ⟨blocks', last', hpost, hpast', hread⟩ := hread line last hahead hwidth hpast
  refine ⟨blocks', last', hpost, hpast', ?_⟩
  have hblanks : Reads table
      (.between (List.replicate indent ' ' ++ (word ++ (tail ++ '\n' :: unlines more))) line blocks
        last) []
      (.between (word ++ (tail ++ '\n' :: unlines more)) line blocks last) := by
    refine reads_indentation indent hdirective ?_ ?_
    · exact stops_of_isIdentifier _ hname not_isBlank_of_startsName
    · exact stops_of_isIdentifier _ hname fun c hc => eq_false_of_startsName hc rfl
  rw [List.singleton_append, unlines_cons, indented, List.append_assoc, List.append_assoc]
  exact hblanks.trans hread

theorem passes_line {word tail : List Char} (h : IsNamed word tail)
    (hread : ∀ line last, table.Ahead line (indented indent (word ++ tail) :: more) →
      table.indentOf line = indent → IsPast last line →
      ∃ blocks' last', post blocks' ∧ IsPast last' (line + 1) ∧
        Reads table (.between (word ++ (tail ++ '\n' :: unlines more)) line blocks last) out
          (.between (unlines more) (line + 1) blocks' last')) :
    Passes table blocks [indented indent (word ++ tail)] more out post :=
  passes_word h.name (h.directive indent (.inr ⟨_, rfl⟩)) hread

/-- The end of a block stands under its header. -/
theorem passes_blockEnd (h : IsOpen indent inner outer blocks) :
    Passes table blocks [indented indent endName] more [(.blockEnd, .nothing)]
      fun blocks' => blocks' = outer := by
  obtain ⟨frame, rfl, hindent, -⟩ := h
  rw [← List.append_nil endName]
  refine passes_line isNamed_endName fun line last _ hwidth _ => ?_
  have hread : Reads table (.between (endName ++ '\n' :: unlines more) line (frame :: outer) last)
      [(.blockEnd, .nothing)] (.between (unlines more) (line + 1) outer (some (.blockEnd, line))) :=
    (reads_blockEnd (hindent.trans hwidth.symm)).trans reads_endNewline
  exact ⟨outer, some (.blockEnd, line), rfl, isPast_some _ line, hread⟩

/-- An attribute is a member of the innermost block. -/
theorem passes_attribute (member : Attribute) (h : IsOpen indent inner outer blocks)
    (hle : indent ≤ inner) :
    Passes table blocks [indented inner member.text] more member.entries
      (IsOpen indent inner outer) := by
  obtain ⟨blocks', hcheck, hopen⟩ := h.exists_checkMember hle
  obtain ⟨frame, rfl, -, -⟩ := h
  have hnamed := member.isNamed
  refine passes_line hnamed fun line last _ hwidth hpast => ?_
  rw [← hwidth] at hcheck
  have hname : Reads table
      (.between (member.name.chars ++ (member.tail ++ '\n' :: unlines more)) line (frame :: outer)
        last) [(.attributeName, .text member.name.chars)]
      (.inside (joinWith [' '] (member.expression.terms.map Term.text) ++ '\n' :: unlines more) line
        {} (List.replicate blocks'.length .block) blocks' (some (.attributeName, line))) := by
    have hrest : IsLineEnd ('\n' :: unlines more) := .inr ⟨_, rfl⟩
    have hassign := assignment_append (member.expression.stops_isBlank (unlines more))
    exact reads_attributeName [' ', '=', ' '] member.name.shape member.name.free
      (hnamed.stops hrest) (hnamed.directive 0 hrest) hassign (by decide) hcheck
  have hexpression : ∃ last', IsPast last' (line + 1) ∧ Reads table
      (.inside (joinWith [' '] (member.expression.terms.map Term.text) ++ '\n' :: unlines more) line
        {} (List.replicate blocks'.length .block) blocks' (some (.attributeName, line)))
      (member.expression.terms.map Term.entry) (.between (unlines more) (line + 1) blocks' last') :=
    reads_expression member.expression (isPast_some .attributeName line)
  obtain ⟨last', hpast', hexpression⟩ := hexpression
  exact ⟨blocks', last', hopen, hpast', hname.trans hexpression⟩

/-- The names of a header, up to the end of its line. -/
theorem reads_header (header : Header) {line : Nat} {last : Option (Kind × Nat)} {rest : List Char}
    (hpast : IsPast last line) (hcheck : blocks.checkMember (table.indentOf line) = .ok blocks') :
    ∃ kind, (kind = .className ∨ kind = .instanceName) ∧
      Reads table
        (.between (header.owner.chars ++ (header.tail ++ '\n' :: rest)) line blocks last)
        header.entries
        (.between ('\n' :: rest) line
          ({ owner := header.owner.chars, line, headerIndent := table.indentOf line } :: blocks')
          (some (kind, line))) := by
  have hnamed := header.isNamed
  have hrest : IsLineEnd ('\n' :: rest) := .inr ⟨rest, rfl⟩
  let frame : Frame := { owner := header.owner.chars, line, headerIndent := table.indentOf line }
  have hclass (hassign : assignment (header.tail ++ '\n' :: rest) = none) : Reads table
      (.between (header.owner.chars ++ (header.tail ++ '\n' :: rest)) line blocks last)
      [(.className, .text header.owner.chars)]
      (.between (header.tail ++ '\n' :: rest) line (frame :: blocks') (some (.className, line))) :=
    reads_className header.owner.shape header.owner.notEnd (hnamed.stops hrest)
      (hnamed.directive 0 hrest) hassign hpast hcheck
  obtain ⟨owner, name⟩ := header
  cases name with
  | none => exact ⟨.className, .inl rfl, hclass rfl⟩
  | some name =>
    have hname : IsNamed name.chars [] := isNamed_nil name.shape
    have hother (d : Char) (hd : startsName d = false) :
        Stops (· = d) (name.chars ++ '\n' :: rest) :=
      stops_of_isIdentifier _ name.shape fun c hc => eq_false_of_startsName hc hd
    have hblank : Stops isBlank (name.chars ++ '\n' :: rest) :=
      stops_of_isIdentifier _ name.shape not_isBlank_of_startsName
    have hassign : assignment (' ' :: (name.chars ++ '\n' :: rest)) = none :=
      Pattern.seq_eq_none_of_right (gap_append 1 hblank)
        (Pattern.seq_eq_none_of_left (Pattern.one_eq_none (hother '=' rfl)))
    have hspace : Reads table
        (.between (' ' :: (name.chars ++ '\n' :: rest)) line (frame :: blocks')
          (some (.className, line))) []
        (.between (name.chars ++ '\n' :: rest) line (frame :: blocks') (some (.className, line))) :=
      reads_indentation 1 (hname.directive 1 hrest) hblank (hother ';' rfl)
    have hinstance : Reads table
        (.between (name.chars ++ '\n' :: rest) line (frame :: blocks') (some (.className, line)))
        [(.instanceName, .text name.chars)]
        (.between ('\n' :: rest) line (frame :: blocks') (some (.instanceName, line))) :=
      reads_instanceName name.shape name.notEnd (hname.stops hrest) (hname.directive 0 hrest) rfl
    exact ⟨.instanceName, .inr rfl, (hclass hassign).trans (hspace.trans hinstance)⟩

/-- A header opens a block as a member of the block around it, and the members are
expected where the line behind it is, unless this closes the block. -/
theorem passes_header (header : Header) (hcheck : blocks.checkMember indent = .ok blocks')
    (hnext : ∀ line, table.Ahead line (indented indent header.text :: more) →
      ∃ next, ((table.nextContentAfter line).map fun found => (found.indent, found.isEnd)) =
        some next ∧ (next.2 = false → next.1 = inner)) :
    Passes table blocks [indented indent header.text] more header.entries
      (IsOpen indent inner blocks') := by
  refine passes_line header.isNamed fun line last hahead hwidth hpast => ?_
  rw [← hwidth] at hcheck
  let frame : Frame := { owner := header.owner.chars, line, headerIndent := table.indentOf line }
  have hnames : ∃ kind, (kind = .className ∨ kind = .instanceName) ∧ Reads table
      (.between (header.owner.chars ++ (header.tail ++ '\n' :: unlines more)) line blocks last)
      header.entries (.between ('\n' :: unlines more) line (frame :: blocks') (some (kind, line))) :=
    reads_header header hpast hcheck
  obtain ⟨kind, hkind, hnames⟩ := hnames
  -- The end of the line looks ahead.
  obtain ⟨next, hnext, hinner⟩ := hnext line hahead
  have hnewline : Reads table
      (.between ('\n' :: unlines more) line (frame :: blocks') (some (kind, line))) []
      (.between (unlines more) (line + 1) (BlockStack.expectMembers (some next) (frame :: blocks'))
        (some (kind, line))) := by
    rw [← hnext]
    exact reads_headerNewline hkind
  have hopen : IsOpen indent inner blocks'
      (BlockStack.expectMembers (some next) (frame :: blocks')) :=
    isOpen_expectMembers hwidth rfl hinner
  have hread := hnames.trans hnewline
  rw [List.append_nil] at hread
  exact ⟨_, _, hopen, isPast_some kind line, hread⟩

/-! ## Trees -/

/-- A block is read, if its members are. -/
theorem passes_block (header : Header) (members : Members)
    (hcheck : blocks.checkMember indent = .ok blocks')
    (hmembers : ∀ opened, IsOpen indent inner blocks' opened →
      Passes table opened (members.lines inner) (indented indent endName :: more) members.entries
        (IsOpen indent inner blocks')) :
    Passes table blocks
      (indented indent header.text :: (members.lines inner ++ [indented indent endName])) more
      (header.entries ++ (members.entries ++ [(.blockEnd, .nothing)]))
      fun blocks'' => blocks'' = blocks' := by
  have hrest : ∀ opened, IsOpen indent inner blocks' opened →
      Passes table opened (members.lines inner ++ [indented indent endName]) more
        (members.entries ++ [(.blockEnd, .nothing)]) fun blocks'' => blocks'' = blocks' :=
    fun opened hopened => (hmembers opened hopened).append fun _ h => passes_blockEnd h
  have hheader : Passes table blocks [indented indent header.text]
      ((members.lines inner ++ [indented indent endName]) ++ more) header.entries
      (IsOpen indent inner blocks') := by
    rw [List.append_assoc]
    exact passes_header header hcheck fun line hahead => hahead.exists_expected
  exact hheader.append hrest

/-- The members of a block are read one after the other. -/
theorem passes_members (members : Members) (h : IsOpen indent inner outer blocks)
    (hle : indent ≤ inner) :
    Passes table blocks (members.lines inner) more members.entries (IsOpen indent inner outer) := by
  induction members generalizing indent inner outer blocks more with
  | none => exact .nil h
  | assign first members ih =>
    exact (passes_attribute first h hle).append fun _ hopen => ih hopen hle
  | block header extra nested members ihnested ihmembers =>
    obtain ⟨blocks', hcheck, hopen⟩ := h.exists_checkMember hle
    -- The nested block leaves the blocks as its header has left them, checked as a member.
    have hblock : Passes table blocks
        (indented inner header.text :: (nested.lines (inner + extra) ++ [indented inner endName]))
        (members.lines inner ++ more)
        (header.entries ++ (nested.entries ++ [(.blockEnd, .nothing)]))
        fun blocks'' => blocks'' = blocks' :=
      passes_block header nested hcheck fun _ hopened => ihnested hopened (Nat.le_add_right _ _)
    have hall := hblock.append fun _ hsame => ihmembers (hsame ▸ hopen) hle
    simpa [Members.lines, Members.entries] using hall

/-- The blocks of a forest are read one after the other. -/
theorem passes_forest (forest : Forest) :
    Passes table [] (forest.flatMap TopBlock.lines) [] (forest.flatMap TopBlock.entries)
      fun blocks => blocks = [] := by
  induction forest with
  | nil => exact .nil rfl
  | cons block forest ih =>
    have hblock : Passes table [] block.lines (forest.flatMap TopBlock.lines ++ []) block.entries
        fun blocks => blocks = [] :=
      passes_block block.header block.members rfl fun _ hopened =>
        passes_members block.members hopened (Nat.le_add_right _ _)
    exact hblock.append fun _ hsame => hsame ▸ ih

/-! ## Neighbours -/

/-- Kinds in a row that agree, behind any other kinds too. -/
def IsSeparate (kinds : List Kind) : Prop :=
  kinds.IsChain Kind.Agree ∧ ∀ kind ∈ kinds.head?, ¬kind.IsOperand

theorem isSeparate_nil : IsSeparate [] :=
  ⟨List.IsChain.nil, by simp⟩

theorem IsSeparate.append {kinds more : List Kind} (h : IsSeparate kinds) (h' : IsSeparate more) :
    IsSeparate (kinds ++ more) := by
  refine ⟨List.isChain_append.2 ⟨h.1, h'.1, fun _ _ next hnext => ?_⟩, ?_⟩
  · rw [Kind.agree_iff]
    exact fun hboth => h'.2 next hnext hboth.2
  · cases kinds with
    | nil => exact h'.2
    | cons kind kinds => exact h.2

/-- Behind a kind that is no operand any kinds may follow that agree. -/
theorem isSeparate_cons {kind : Kind} {kinds : List Kind} (hkind : ¬kind.IsOperand)
    (h : kinds.IsChain Kind.Agree) : IsSeparate (kind :: kinds) := by
  refine ⟨List.isChain_cons.2 ⟨fun next _ => ?_, h⟩, ?_⟩
  · rw [Kind.agree_iff]
    exact fun hboth => hkind hboth.1
  · rintro _ ⟨⟩
    exact hkind

theorem kindsOf_append (out out' : List (Kind × Value)) :
    kindsOf (out ++ out') = kindsOf out ++ kindsOf out' :=
  List.map_append

theorem Header.isSeparate (header : Header) : IsSeparate (kindsOf header.entries) := by
  obtain ⟨owner, name⟩ := header
  cases name with
  | none => exact isSeparate_cons (Kind.not_isOperand rfl) .nil
  | some name =>
    have hname : IsSeparate [Kind.instanceName] := isSeparate_cons (Kind.not_isOperand rfl) .nil
    exact isSeparate_cons (Kind.not_isOperand rfl) hname.1

theorem Attribute.isSeparate (member : Attribute) : IsSeparate (kindsOf member.entries) := by
  have hchain : (member.expression.terms.map fun term => term.entry.1).IsChain Kind.Agree :=
    member.expression.shape.apart.imp fun _ _ => Kind.agree_iff.2
  refine isSeparate_cons (Kind.not_isOperand rfl) ?_
  rw [List.map_map]
  exact hchain

theorem isSeparate_blockEnd : IsSeparate (kindsOf [(.blockEnd, .nothing)]) :=
  isSeparate_cons (Kind.not_isOperand rfl) .nil

theorem Members.isSeparate (members : Members) : IsSeparate (kindsOf members.entries) := by
  induction members with
  | none => exact isSeparate_nil
  | assign first members ih =>
    rw [entries, kindsOf_append]
    exact first.isSeparate.append ih
  | block header extra nested members ihnested ihmembers =>
    have hend : IsSeparate (kindsOf ((Kind.blockEnd, Value.nothing) :: members.entries)) :=
      isSeparate_blockEnd.append ihmembers
    rw [entries, kindsOf_append, kindsOf_append]
    exact header.isSeparate.append (ihnested.append hend)

/-- No two neighbours in a forest clash. -/
theorem Forest.isSeparate (forest : Forest) : IsSeparate (kindsOf forest.entries) := by
  have hblocks : IsSeparate (kindsOf (forest.flatMap TopBlock.entries)) := by
    induction forest with
    | nil => exact isSeparate_nil
    | cons block forest ih =>
      rw [List.flatMap_cons, kindsOf_append, TopBlock.entries, kindsOf_append, kindsOf_append]
      exact (block.header.isSeparate.append (block.members.isSeparate.append
        isSeparate_blockEnd)).append ih
  rw [entries, kindsOf_append]
  exact hblocks.append (isSeparate_cons (Kind.not_isOperand rfl) .nil)

/-! ## The round trip -/

/-- Plain lines that are read from the first to the last have the tokens that come out. -/
theorem tokenize_of_passes (tree : Files.FileTree) (config : Config) (origin : Files.Path)
    (hplain : ∀ line ∈ lines, IsPlain line)
    (hpasses : ∀ table, Passes table [] lines [] out fun blocks => blocks = [])
    (hchain : (kindsOf (out ++ [(.endOfText, .nothing)])).IsChain Kind.Agree) :
    ∃ tokens, tokenize tree config (unlines lines) origin = .ok tokens ∧
      tokens.map Token.entry = out ++ [(.endOfText, .nothing)] := by
  obtain ⟨source, hsource, htext, htable⟩ := Source.exists_of_plain tree config origin hplain
  have hsplit : splitLines (unlines lines) = lines :=
    splitLines_unlines _ fun line hline => (hplain line hline).lineFeed
  have hahead : source.table.Ahead 1 (lines ++ []) := by
    have hlines := LineTable.ahead_ofText config.tabWidth (unlines lines)
    rw [hsplit] at hlines
    rw [htable, List.append_nil]
    exact hlines
  obtain ⟨blocks, last, rfl, -, hread⟩ := hpasses source.table 1 none hahead (by rintro _ ⟨⟩)
  rw [List.append_nil, ← htext] at hread
  obtain ⟨tokens, htokens, hentries⟩ := Lexer.tokens_of_reads hread hchain
  refine ⟨tokens, ?_, hentries⟩
  rw [tokenize, hsource]
  exact htokens

/-- The text of a forest has the tokens of the forest. -/
theorem tokenize_text (tree : Files.FileTree) (config : Config) (origin : Files.Path)
    (forest : Forest) :
    ∃ tokens, tokenize tree config forest.text origin = .ok tokens ∧
      tokens.map Token.entry = forest.entries :=
  tokenize_of_passes tree config origin (fun _ hline => Forest.isPlain_of_mem_lines hline)
    (fun _ => passes_forest forest) forest.isSeparate.1

/-- A header with a name that looks like a directive, a member in a column of its own, and
operators in a row. -/
example :
    let member : Attribute :=
      { name := ⟨['a'], rfl, rfl⟩
        expression :=
          { terms := [.operator '-' rfl, .operator '-' rfl, .integer 1 7 (by decide)]
            shape := (Closes.term (by decide) (Closes.term (by decide) (Closes.term (by decide)
              (Closes.nil rfl)))).isExpression (.cons_cons rfl (.cons_cons rfl (.singleton _))) } }
    let header : Header :=
      { owner := ⟨['A'], rfl, rfl, rfl⟩
        name := some ⟨['i', 'm', 'p', 'o', 'r', 't'], rfl, rfl⟩ }
    let forest : Forest := [{ indent := 1, header, extra := 1, members := .assign member .none }]
    forest.text = " A import\n  a = - - 07\n end\n".toList ∧
      forest.entries = [(.className, .text ['A']), (.instanceName, .text "import".toList),
        (.attributeName, .text ['a']), (.minus, .nothing), (.minus, .nothing),
        (.integer, .integer 7), (.blockEnd, .nothing), (.endOfText, .nothing)] := by
  decide

end BlockLexer
