import BlockLexer.Scan.Step

/-!
# What an action does

The actions of the rules are taken apart once, in this module.

* `Scan.Accepts` lists what an action does with a match that it accepts, rule by rule: what it
  checks, the scan that it leaves and what it yields.  `Scan.accepts_of_act` says that there is
  nothing else.
* `Scan.Refuses` lists the causes for which an action refuses a match.  `Scan.refuses_of_act` also
  says what a refusal leaves behind.
* `Scan.cases_of_step` and `Scan.cases_of_step_error` take a step apart, down to the action.

What all actions have in common is proved by cases on these lists, so that a change to an action is
a change to its cases here and to what depends on them.
-/

namespace BlockLexer

open Text

/-- The piece of a closed body. -/
def ClosedBody.piece (closed : ClosedBody) : Piece where
  kind := .token .body
  value := .body closed.text
  span := { start := closed.start, stop := closed.stop, line := closed.text.startLine, column := 1 }

namespace Scan

variable {table : LineTable} {s t a : Scan} {rule : Rule} {m : Match} {piece : Piece}
  {piece? : Option Piece} {fault : Fault}

/-! ## Matches that are accepted -/

/-- The part of a string that an escape is, and the characters that it stands for. -/
def escaped (m : Match) (s : Scan) : PieceKind × List Char :=
  match m.lexeme with
  | [_, c] => if s.inRawString then (.stringEscape, m.lexeme) else decodeEscape c
  | _ => (.stringEscape, m.lexeme)

/-- What the action of a rule does with a match that it does not refuse. -/
inductive Accepts (table : LineTable) (s : Scan) (m : Match) : Rule → Scan → Option Piece → Prop
  | directive : Accepts table s m .directive s none
  | comment : Accepts table s m .comment s none
  | continuation : Accepts table s m .continuation s none
  | blanks : Accepts table s m .blanks s (some (s.token .blanks .nothing m.lexeme))
  | newline : Accepts table s m .newline s (some (s.token .newline .nothing m.lexeme))
  | className {blocks : BlockStack} (hheader : s.followsHeader = false)
      (hmember : (if s.mode = .block then s.blocks.checkMember (s.indentHere table)
        else .ok s.blocks) = .ok blocks) :
      Accepts table s m .className
        ((({ s with blocks } : Scan).pushFrame
          { owner := m.lexeme, line := s.position.line, headerIndent := s.indentHere table }).push
            .block)
        (some (s.token .className (.text m.lexeme) m.lexeme))
  /-- Behind the class of a header even a capital letter begins the name of an instance. -/
  | capitalName (hheader : s.followsHeader = true) (hname : s.expectsName = true) :
      Accepts table s m .className s (some (s.token .instanceName (.text m.lexeme) m.lexeme))
  | instanceName (hname : s.expectsName = true) :
      Accepts table s m .instanceName s (some (s.token .instanceName (.text m.lexeme) m.lexeme))
  | blockEnd {frame : Frame} {outer : BlockStack}
      (hsign : (trimStart m.groupText).head? ≠ some '=') (hopen : s.blocks = frame :: outer)
      (hindent : frame.headerIndent = s.indentHere table) :
      Accepts table s m .blockEnd
        ((({ s with blocks := outer } : Scan).report
          (.blockClosed frame.owner s.position.line outer.length)).pop)
        (some (s.token .blockEnd .nothing (m.lexeme.take 3)))
  | attributeName (hfree : isReserved m.groupText = false) :
      Accepts table s m .attributeName (s.push (.expression {}))
        (some (s.token .attributeName (.text m.groupText) m.groupText))
  | bodyMarker {marker : Line} (hafter : s.afterBody = false)
      (hline : table.get? s.position.line = some marker) :
      Accepts table s m .bodyMarker (s.push (.body (.ofMarker table marker))) none
  /-- The marker behind a body belongs to the body. -/
  | closingMarker (hafter : s.afterBody = true) :
      Accepts table s m .bodyMarker { s with afterBody := false } none
  /-- A line that is not in the table. -/
  | strayMarker (hafter : s.afterBody = false) (hline : table.get? s.position.line = none) :
      Accepts table s m .bodyMarker s none
  | headerNewline (hheader : s.followsHeader = true) :
      Accepts table s m .headerNewline
        { s with
          blocks := s.blocks.expectMembers
            ((table.nextContentAfter s.position.line).map fun line => (line.indent, line.isEnd)) }
        (some (s.token .newline .nothing m.lexeme))
  | memberNewline (hheader : s.followsHeader = false) :
      Accepts table s m .headerNewline s (some (s.token .newline .nothing m.lexeme))
  | bodyLine (hopen : ∀ body outer, s.modes = .body body :: outer →
        body.step table s.position.line = none) :
      Accepts table s m .bodyLine s none
  | lastBodyLine {body : OpenBody} {outer : List Activation} {closed : ClosedBody}
      (hmodes : s.modes = .body body :: outer)
      (hstep : body.step table s.position.line = some closed) :
      Accepts table s m .bodyLine
        ((s.report (.bodyClosed closed.text.startLine closed.lastLine body.indent)).pop)
        (some closed.piece)
  | openString {style : QuoteStyle} :
      Accepts table s m (.openString style)
        (s.push (.string style (isRawLetter m.groupText) s.position.line s.position.column))
        (some (s.piece (.stringStart style (isRawLetter m.groupText)) (.text m.groupText) m.lexeme))
  | imaginary {x : Decimal.Double}
      (hread : Decimal.readDouble? (m.lexeme.dropLast.filter (· ≠ '_')) = some x) :
      Accepts table s m .imaginary s (some (s.token .imaginary (.complex .zero x) m.lexeme))
  | float {x : Decimal.Double} (hread : Decimal.readDouble? (m.lexeme.filter (· ≠ '_')) = some x) :
      Accepts table s m .float s (some (s.token .float (.float x) m.lexeme))
  | hex (hbound : Decimal.natOfDigits 16 (m.lexeme.drop 2) < integerBound) :
      Accepts table s m .hex s
        (some (s.token .hex (.integer (Decimal.natOfDigits 16 (m.lexeme.drop 2))) m.lexeme))
  | octal (hbound : Decimal.natOfDigits 8 (m.lexeme.drop 2) < integerBound) :
      Accepts table s m .octal s
        (some (s.token .octal (.integer (Decimal.natOfDigits 8 (m.lexeme.drop 2))) m.lexeme))
  | binary (hbound : Decimal.natOfDigits 2 (m.lexeme.drop 2) < integerBound) :
      Accepts table s m .binary s
        (some (s.token .binary (.integer (Decimal.natOfDigits 2 (m.lexeme.drop 2))) m.lexeme))
  | integer (hbound : Decimal.natOfDigits 10 m.lexeme < integerBound) :
      Accepts table s m .integer s
        (some (s.token .integer (.integer (Decimal.natOfDigits 10 m.lexeme)) m.lexeme))
  | trueWord (hword : m.lexeme.map Char.toLower = ['t', 'r', 'u', 'e']) :
      Accepts table s m .identifier s (some (s.token .bool (.bool true) m.lexeme))
  | falseWord (hword : m.lexeme.map Char.toLower = ['f', 'a', 'l', 's', 'e']) :
      Accepts table s m .identifier s (some (s.token .bool (.bool false) m.lexeme))
  | noneWord (hword : m.lexeme.map Char.toLower = ['n', 'o', 'n', 'e']) :
      Accepts table s m .identifier s (some (s.token .nothing .nothing m.lexeme))
  | identifier (hfree : isReserved m.lexeme = false) :
      Accepts table s m .identifier s (some (s.token .identifier (.text m.lexeme) m.lexeme))
  | bracket {brackets brackets' : Brackets} {kind : Kind} {outer : List Activation}
      (hmodes : s.modes = .expression brackets :: outer)
      (htake : brackets.take? m.lexeme = some (kind, brackets')) :
      Accepts table s m .bracket { s with modes := .expression brackets' :: outer }
        (some (s.token kind .nothing m.lexeme))
  | lastNewline {brackets : Brackets} {outer : List Activation}
      (hmodes : s.modes = .expression brackets :: outer) (hbalanced : brackets.isBalanced = true) :
      Accepts table s m .expressionNewline s.pop (some (s.token .newline .nothing m.lexeme))
  | expressionNewline (hopen : ∀ brackets outer, s.modes = .expression brackets :: outer →
        brackets.isBalanced = false) :
      Accepts table s m .expressionNewline s (some (s.token .newline .nothing m.lexeme))
  | operator :
      Accepts table s m .operator s (some (s.token (operatorKind m.lexeme) .nothing m.lexeme))
  | escape :
      Accepts table s m .escape s
        (some (s.piece (s.escaped m).1 (.text (s.escaped m).2) m.lexeme))
  | stringText {style : QuoteStyle} :
      Accepts table s m (.stringText style) s
        (some (s.piece .stringText (.text m.lexeme) m.lexeme))
  | loneQuote {style : QuoteStyle} :
      Accepts table s m (.loneQuote style) s
        (some (s.piece .stringText (.text m.lexeme) m.lexeme))
  | closeString {style : QuoteStyle} :
      Accepts table s m (.closeString style) s.pop
        (some (s.piece .stringEnd .nothing m.lexeme))

theorem accepts_of_openBlock (h : s.openBlock table m = (a, .ok piece?)) :
    Accepts table s m .className a piece? := by
  unfold openBlock takeName at h
  split at h
  · next hheader =>
    split at h
    · next hname =>
      cases h
      exact .capitalName hheader hname
    · cases h
  next hheader =>
  dsimp only at h
  split at h
  · cases h
  · next hmember =>
    cases h
    exact .className (Bool.eq_false_iff.2 hheader) hmember

theorem accepts_of_takeName (h : s.takeName m = (a, .ok piece?)) :
    Accepts table s m .instanceName a piece? := by
  unfold takeName at h
  split at h
  · next hname =>
    cases h
    exact .instanceName hname
  · cases h

theorem accepts_of_closeBlock (h : s.closeBlock table m = (a, .ok piece?)) :
    Accepts table s m .blockEnd a piece? := by
  unfold closeBlock at h
  split at h
  · cases h
  next hsign =>
  cases hopen : s.blocks with
  | nil =>
    rw [hopen] at h
    cases h
  | cons frame outer =>
    simp only [hopen, BlockStack.close] at h
    by_cases hindent : frame.headerIndent = s.indentHere table
    · rw [if_pos hindent] at h
      cases h
      exact .blockEnd hsign hopen hindent
    · rw [if_neg hindent] at h
      cases h

theorem accepts_of_openAttribute (h : s.openAttribute m = (a, .ok piece?)) :
    Accepts table s m .attributeName a piece? := by
  unfold openAttribute at h
  dsimp only at h
  split at h
  · cases h
  · next hfree =>
    cases h
    exact .attributeName (Bool.eq_false_iff.2 hfree)

theorem accepts_of_openBody (h : s.openBody table = (a, .ok piece?)) :
    Accepts table s m .bodyMarker a piece? := by
  unfold openBody at h
  split at h
  · next hafter =>
    cases h
    exact .closingMarker hafter
  next hafter =>
  rw [Bool.not_eq_true] at hafter
  split at h
  · next hline =>
    cases h
    exact .strayMarker hafter hline
  · next hline =>
    cases h
    exact .bodyMarker hafter hline

theorem accepts_of_endBlockLine (h : s.endBlockLine table m = (a, .ok piece?)) :
    Accepts table s m .headerNewline a piece? := by
  unfold endBlockLine at h
  dsimp only at h
  split at h
  · next hheader =>
    cases h
    exact .headerNewline hheader
  · next hheader =>
    cases h
    exact .memberNewline (Bool.eq_false_iff.2 hheader)

theorem accepts_of_takeBodyLine (h : s.takeBodyLine table = (a, .ok piece?)) :
    Accepts table s m .bodyLine a piece? := by
  unfold takeBodyLine at h
  split at h
  · next hmodes =>
    split at h
    · next hstep =>
      cases h
      refine .bodyLine fun body outer hbody => ?_
      obtain rfl := Activation.body.inj (List.cons.inj (hmodes.symm.trans hbody)).1
      exact hstep
    · next hstep =>
      cases h
      exact .lastBodyLine hmodes hstep
  · next hnone =>
    cases h
    exact .bodyLine fun body outer hbody => absurd hbody (hnone body outer)

theorem accepts_of_takeIdentifier (h : s.takeIdentifier m = (a, .ok piece?)) :
    Accepts table s m .identifier a piece? := by
  unfold takeIdentifier at h
  dsimp only at h
  -- The reserved words first, then all other names.
  split at h
  · next hword =>
    cases h
    exact .trueWord hword
  next htrue =>
  split at h
  · next hword =>
    cases h
    exact .falseWord hword
  next hfalse =>
  split at h
  · next hword =>
    cases h
    exact .noneWord hword
  next hnone =>
  split at h
  · cases h
  · next hend =>
    cases h
    exact .identifier (by simp [isReserved, reservedWords, htrue, hfalse, hnone, hend])

theorem accepts_of_takeBracket (h : s.takeBracket m = (a, .ok piece?)) :
    Accepts table s m .bracket a piece? := by
  unfold takeBracket at h
  split at h
  · next hmodes =>
    split at h
    · cases h
    · next htake =>
      cases h
      exact .bracket hmodes htake
  · cases h

theorem accepts_of_endExpressionLine (h : s.endExpressionLine m = (a, .ok piece?)) :
    Accepts table s m .expressionNewline a piece? := by
  unfold endExpressionLine at h
  dsimp only at h
  split at h
  · next brackets outer hmodes =>
    split at h
    · next hbalanced =>
      cases h
      exact .lastNewline hmodes hbalanced
    · next hopen =>
      cases h
      refine .expressionNewline fun brackets' outer' hmodes' => ?_
      obtain rfl := Activation.expression.inj (List.cons.inj (hmodes.symm.trans hmodes')).1
      exact Bool.eq_false_iff.2 hopen
  · next hnone =>
    cases h
    exact .expressionNewline fun brackets outer hmodes => absurd hmodes (hnone brackets outer)

/-- A number that is read yields a token, and one that is none is refused. -/
theorem exists_of_takeDouble {kind : Kind} {value : Decimal.Double → Value} {numeral : List Char}
    (h : s.takeDouble kind value numeral m = (a, .ok piece?)) :
    ∃ x, Decimal.readDouble? (numeral.filter (· ≠ '_')) = some x ∧ a = s ∧
      piece? = some (s.token kind (value x) m.lexeme) := by
  unfold takeDouble at h
  split at h
  · cases h
  · next x hread =>
    cases h
    exact ⟨x, hread, rfl, rfl⟩

theorem lt_of_takeInteger {kind : Kind} {radix : Nat} {digits : List Char}
    (h : s.takeInteger kind radix digits m = (a, .ok piece?)) :
    Decimal.natOfDigits radix digits < integerBound ∧ a = s ∧
      piece? = some (s.token kind (.integer (Decimal.natOfDigits radix digits)) m.lexeme) := by
  unfold takeInteger at h
  dsimp only at h
  split at h
  · next hbound =>
    cases h
    exact ⟨hbound, rfl, rfl⟩
  · cases h

/-- An action without a fault accepts its match. -/
theorem accepts_of_act (h : s.act table rule m = (a, .ok piece?)) :
    Accepts table s m rule a piece? := by
  cases rule with
  | directive | comment | continuation | blanks | newline | openString | operator | escape
  | stringText | loneQuote | closeString =>
    cases h
    constructor
  | strayEnd => cases h
  | className => exact accepts_of_openBlock h
  | instanceName => exact accepts_of_takeName h
  | blockEnd => exact accepts_of_closeBlock h
  | attributeName => exact accepts_of_openAttribute h
  | bodyMarker => exact accepts_of_openBody h
  | headerNewline => exact accepts_of_endBlockLine h
  | bodyLine => exact accepts_of_takeBodyLine h
  | imaginary =>
    obtain ⟨x, hread, rfl, rfl⟩ := exists_of_takeDouble h
    exact .imaginary hread
  | float =>
    obtain ⟨x, hread, rfl, rfl⟩ := exists_of_takeDouble h
    exact .float hread
  | hex =>
    obtain ⟨hbound, rfl, rfl⟩ := lt_of_takeInteger h
    exact .hex hbound
  | octal =>
    obtain ⟨hbound, rfl, rfl⟩ := lt_of_takeInteger h
    exact .octal hbound
  | binary =>
    obtain ⟨hbound, rfl, rfl⟩ := lt_of_takeInteger h
    exact .binary hbound
  | integer =>
    obtain ⟨hbound, rfl, rfl⟩ := lt_of_takeInteger h
    exact .integer hbound
  | identifier => exact accepts_of_takeIdentifier h
  | bracket => exact accepts_of_takeBracket h
  | expressionNewline => exact accepts_of_endExpressionLine h

/-- What is listed is what the actions do. -/
theorem Accepts.act_eq (h : Accepts table s m rule a piece?) :
    s.act table rule m = (a, .ok piece?) := by
  cases h with
  | directive | comment | continuation | blanks | newline | openString | operator | escape
  | stringText | loneQuote | closeString => rfl
  | className hheader hmember =>
    rw [act, openBlock, if_neg (by simp [hheader])]
    dsimp only
    rw [hmember]
  | capitalName hheader hname => rw [act, openBlock, if_pos hheader, takeName, if_pos hname]
  | instanceName hname => rw [act, takeName, if_pos hname]
  | blockEnd hsign hopen hindent =>
    rw [act, closeBlock, if_neg hsign, hopen, BlockStack.close, if_pos hindent]
  | attributeName hfree => rw [act, openAttribute, if_neg (by simp [hfree])]
  | closingMarker hafter => rw [act, openBody, if_pos hafter]
  | strayMarker hafter hline => rw [act, openBody, if_neg (by simp [hafter]), hline]
  | bodyMarker hafter hline => rw [act, openBody, if_neg (by simp [hafter]), hline]
  | headerNewline hheader => rw [act, endBlockLine, if_pos hheader]
  | memberNewline hheader => rw [act, endBlockLine, if_neg (by simp [hheader])]
  | bodyLine hopen =>
    rw [act, takeBodyLine]
    split
    · next body outer hmodes => rw [hopen body outer hmodes]
    · rfl
  | lastBodyLine hmodes hstep =>
    rw [act, takeBodyLine, hmodes]
    dsimp only
    rw [hstep]
    rfl
  | imaginary hread => rw [act, takeDouble, hread]
  | float hread => rw [act, takeDouble, hread]
  | hex hbound | octal hbound | binary hbound | integer hbound =>
    rw [act, takeInteger, if_pos hbound]
  | trueWord hword => rw [act, takeIdentifier, if_pos hword]
  | falseWord hword => simp [act, takeIdentifier, hword]
  | noneWord hword => simp [act, takeIdentifier, hword]
  | identifier hfree =>
    obtain ⟨hend, htrue, hfalse, hnone⟩ : m.lexeme.map Char.toLower ≠ ['e', 'n', 'd'] ∧
        m.lexeme.map Char.toLower ≠ ['t', 'r', 'u', 'e'] ∧
          m.lexeme.map Char.toLower ≠ ['f', 'a', 'l', 's', 'e'] ∧
            m.lexeme.map Char.toLower ≠ ['n', 'o', 'n', 'e'] := by
      simpa [isReserved, reservedWords] using hfree
    rw [act, takeIdentifier, if_neg htrue, if_neg hfalse, if_neg hnone, if_neg hend]
  | bracket hmodes htake =>
    rw [act, takeBracket, hmodes]
    dsimp only
    rw [htake]
  | lastNewline hmodes hbalanced =>
    rw [act, endExpressionLine, hmodes]
    dsimp only
    rw [if_pos hbalanced]
  | expressionNewline hopen =>
    rw [act, endExpressionLine]
    split
    · next brackets outer hmodes => rw [hopen brackets outer hmodes, if_neg Bool.false_ne_true]
    · rfl

/-! ## Matches that are refused -/

/-- The causes for which the action of a rule refuses its match. -/
inductive Refuses (table : LineTable) (s : Scan) (m : Match) : Rule → Cause → Prop
  | strayEnd : Refuses table s m .strayEnd .strayEnd
  /-- A name behind anything but the class of a header. -/
  | name {rule : Rule} (hrule : rule = .className ∨ rule = .instanceName)
      (hname : s.expectsName = false) : Refuses table s m rule (.unexpectedName m.lexeme)
  /-- The header of a block in the wrong column of the block around it. -/
  | member {cause : Cause} (hmode : s.mode = .block)
      (hmember : s.blocks.checkMember (s.indentHere table) = .error cause) :
      Refuses table s m .className cause
  | endName (hsign : (trimStart m.groupText).head? = some '=') :
      Refuses table s m .blockEnd (.reservedName ['e', 'n', 'd'])
  | close {cause : Cause} (hclose : (s.blocks.close (s.indentHere table)).2 = .error cause) :
      Refuses table s m .blockEnd cause
  | attributeName (hreserved : isReserved m.groupText = true) :
      Refuses table s m .attributeName (.reservedName m.groupText)
  /-- A numeral that no double is read from, without the unit of an imaginary one. -/
  | imaginary (hread : Decimal.readDouble? (m.lexeme.dropLast.filter (· ≠ '_')) = none) :
      Refuses table s m .imaginary (.invalidNumber m.lexeme)
  | float (hread : Decimal.readDouble? (m.lexeme.filter (· ≠ '_')) = none) :
      Refuses table s m .float (.invalidNumber m.lexeme)
  | integer {rule : Rule} (hrule : rule ∈ [Rule.hex, .octal, .binary, .integer]) :
      Refuses table s m rule (.integerOutOfRange m.lexeme)
  | identifier : Refuses table s m .identifier .endInExpression
  /-- A closing bracket without an open one of its kind. -/
  | bracket {brackets : Brackets} {outer : List Activation}
      (hmodes : s.modes = .expression brackets :: outer) (htake : brackets.take? m.lexeme = none) :
      Refuses table s m .bracket .closingBracket
  | noExpression (hmode : s.mode ≠ .expression) :
      Refuses table s m .bracket .bracketOutsideExpression

theorem refuses_of_takeName (hrule : rule = .className ∨ rule = .instanceName)
    (h : s.takeName m = (a, .error fault)) :
    a = s ∧ ∃ cause, s.Refuses table m rule cause ∧ fault = s.fault cause := by
  unfold takeName at h
  split at h
  · cases h
  · next hname =>
    cases h
    exact ⟨rfl, _, .name hrule (eq_false_of_ne_true hname), rfl⟩

theorem refuses_of_openBlock (h : s.openBlock table m = (a, .error fault)) :
    a = s ∧ ∃ cause, s.Refuses table m .className cause ∧ fault = s.fault cause := by
  unfold openBlock at h
  split at h
  · exact refuses_of_takeName (.inl rfl) h
  dsimp only at h
  split at h
  · next cause hmember =>
    cases h
    split at hmember
    · next hmode => exact ⟨rfl, cause, .member hmode hmember, rfl⟩
    · cases hmember
  · cases h

theorem refuses_of_closeBlock (h : s.closeBlock table m = (a, .error fault)) :
    ∃ cause, s.Refuses table m .blockEnd cause ∧ fault = s.fault cause := by
  unfold closeBlock at h
  split at h
  · next hsign =>
    cases h
    exact ⟨_, .endName hsign, rfl⟩
  dsimp only at h
  split at h
  · next cause hclose =>
    cases h
    exact ⟨cause, .close hclose, rfl⟩
  · cases h

theorem fault_of_takeDouble {kind : Kind} {value : Decimal.Double → Value} {numeral : List Char}
    (h : s.takeDouble kind value numeral m = (a, .error fault)) :
    a = s ∧ Decimal.readDouble? (numeral.filter (· ≠ '_')) = none ∧
      fault = s.fault (.invalidNumber m.lexeme) := by
  unfold takeDouble at h
  split at h
  · next hread =>
    cases h
    exact ⟨rfl, hread, rfl⟩
  · cases h

theorem fault_of_takeInteger {kind : Kind} {radix : Nat} {digits : List Char}
    (h : s.takeInteger kind radix digits m = (a, .error fault)) :
    a = s ∧ fault = s.fault (.integerOutOfRange m.lexeme) := by
  unfold takeInteger at h
  dsimp only at h
  split at h
  · cases h
  · cases h
    exact ⟨rfl, rfl⟩

theorem fault_of_takeIdentifier (h : s.takeIdentifier m = (a, .error fault)) :
    a = s ∧ fault = s.fault .endInExpression := by
  unfold takeIdentifier at h
  dsimp only at h
  repeat' split at h
  all_goals cases h
  exact ⟨rfl, rfl⟩

theorem refuses_of_takeBracket (h : s.takeBracket m = (a, .error fault)) :
    a = s ∧ ∃ cause, s.Refuses table m .bracket cause ∧ fault = s.fault cause := by
  unfold takeBracket at h
  split at h
  · next hmodes =>
    split at h
    · next htake =>
      cases h
      exact ⟨rfl, _, .bracket hmodes htake, rfl⟩
    · cases h
  · next hnone =>
    cases h
    refine ⟨rfl, _, .noExpression fun hmode => ?_, rfl⟩
    cases hmodes : s.modes with
    | nil => simp [Scan.mode, hmodes, modeOf] at hmode
    | cons activation outer =>
      cases activation with
      | expression brackets => exact hnone _ _ hmodes
      | block | body | string => simp [Scan.mode, hmodes, modeOf, Activation.mode] at hmode

/-- An action that fails does so at the place of the scan, for one of the causes of its rule, and
it leaves the scan alone.  The `end` of a block is the exception: its frame may be gone. -/
theorem refuses_of_act (h : s.act table rule m = (a, .error fault)) :
    (rule ≠ .blockEnd → a = s) ∧ ∃ cause, s.Refuses table m rule cause ∧ fault = s.fault cause := by
  cases rule with
  | directive | comment | continuation | blanks | newline | operator | openString | escape
  | stringText | loneQuote | closeString => cases h
  | strayEnd =>
    cases h
    exact ⟨fun _ => rfl, _, .strayEnd, rfl⟩
  | className => exact (refuses_of_openBlock h).imp_left fun hsame _ => hsame
  | instanceName => exact (refuses_of_takeName (.inr rfl) h).imp_left fun hsame _ => hsame
  | blockEnd => exact ⟨absurd rfl, refuses_of_closeBlock h⟩
  | attributeName =>
    change s.openAttribute m = _ at h
    unfold openAttribute at h
    dsimp only at h
    split at h
    · next hreserved =>
      cases h
      exact ⟨fun _ => rfl, _, .attributeName hreserved, rfl⟩
    · cases h
  | bodyMarker =>
    change s.openBody table = _ at h
    unfold openBody at h
    split at h
    · cases h
    · split at h <;> cases h
  | headerNewline =>
    change s.endBlockLine table m = _ at h
    unfold endBlockLine at h
    dsimp only at h
    split at h <;> cases h
  | bodyLine =>
    change s.takeBodyLine table = _ at h
    unfold takeBodyLine at h
    split at h
    · split at h <;> cases h
    · cases h
  | imaginary =>
    obtain ⟨hsame, hread, hfault⟩ := fault_of_takeDouble h
    exact ⟨fun _ => hsame, _, .imaginary hread, hfault⟩
  | float =>
    obtain ⟨hsame, hread, hfault⟩ := fault_of_takeDouble h
    exact ⟨fun _ => hsame, _, .float hread, hfault⟩
  | hex | octal | binary | integer =>
    obtain ⟨hsame, hfault⟩ := fault_of_takeInteger h
    exact ⟨fun _ => hsame, _, .integer (by decide), hfault⟩
  | identifier =>
    obtain ⟨hsame, hfault⟩ := fault_of_takeIdentifier h
    exact ⟨fun _ => hsame, _, .identifier, hfault⟩
  | bracket => exact (refuses_of_takeBracket h).imp_left fun hsame _ => hsame
  | expressionNewline =>
    change s.endExpressionLine m = _ at h
    unfold endExpressionLine at h
    dsimp only at h
    split at h <;> cases h

/-! ## Steps -/

/-- The text may end where nothing is open. -/
theorem eq_of_finish (h : s.finish table = .ok piece) :
    s.modes = [] ∧ piece = s.token .endOfText .nothing [] := by
  unfold finish at h
  split at h
  · next hmodes => exact ⟨hmodes, (Except.ok.inj h).symm⟩
  · cases h
  · cases h
  · split at h <;> cases h
  · cases h

/-- At the end of the text a step takes what the end yields. -/
theorem step_of_rest_nil (table : LineTable) (hrest : s.rest = []) :
    s.step table = ({ s with isDone := true }, some (s.finish table)) := by
  unfold step
  rw [hrest]

/-- A step that yields nothing is not at the end of the text. -/
theorem rest_ne_nil_of_step_quiet (hstep : s.step table = (t, none)) : s.rest ≠ [] := by
  intro hnil
  cases (step_of_rest_nil table hnil).symm.trans hstep

/-- Where nothing is open the text may end. -/
theorem finish_of_modes_nil (table : LineTable) (hmodes : s.modes = []) :
    s.finish table = .ok (s.token .endOfText .nothing []) := by
  unfold finish
  rw [hmodes]

/-- A step without a fault comes to the end of the text, or takes a match and moves behind it. -/
theorem cases_of_step (piece? : Option Piece) (h : s.step table = (t, piece?.map Except.ok)) :
    (s.rest = [] ∧ t = { s with isDone := true } ∧ piece?.map Except.ok = some (s.finish table)) ∨
      ∃ rule m a, s.mode.select s.rest = some (rule, m) ∧
        (s.report (.ruleMatched rule s.mode s.position.line s.position.column)).act table rule m =
          (a, .ok piece?) ∧ t = piece?.elim (a.advance m.lexeme) (a.advance m.lexeme).note := by
  unfold step at h
  split at h
  · next hrest => exact .inl ⟨hrest, (Prod.mk.inj h).1.symm, (Prod.mk.inj h).2.symm⟩
  split at h
  · cases piece? <;> simp at h
  next rule m hselect =>
  refine .inr ⟨rule, m, ?_⟩
  dsimp only at h
  rcases hacted : (s.report (.ruleMatched rule s.mode s.position.line s.position.column)).act
    table rule m with ⟨a, fault | outcome⟩
  · cases piece? <;> simp [hacted] at h
  refine ⟨a, hselect, ?_⟩
  cases outcome with
  | none =>
    cases piece? with
    | some piece => simp [hacted] at h
    | none =>
      simp only [hacted, Prod.mk.injEq] at h
      obtain ⟨rfl, -⟩ := h
      exact ⟨rfl, rfl⟩
  | some taken =>
    cases piece? with
    | none => simp [hacted] at h
    | some piece =>
      simp only [hacted, Option.map_some, Prod.mk.injEq, Option.some.injEq,
        Except.ok.injEq] at h
      obtain ⟨rfl, rfl⟩ := h
      exact ⟨rfl, rfl⟩

/-- A step that fails is at the end of the text, is stuck, or takes a match that is refused.  It
ends the scan. -/
theorem cases_of_step_error (h : s.step table = (t, some (.error fault))) :
    (s.rest = [] ∧ s.finish table = .error fault ∧ t = { s with isDone := true }) ∨
      (∃ c cs, s.rest = c :: cs ∧ s.mode.select s.rest = none ∧ fault = s.stuck c ∧
        t = { s with isDone := true }) ∨
      ∃ rule m a, s.mode.select s.rest = some (rule, m) ∧
        (s.report (.ruleMatched rule s.mode s.position.line s.position.column)).act table rule m =
          (a, .error fault) ∧ t = { a.advance m.lexeme with isDone := true } := by
  unfold Scan.step at h
  split at h
  · next hrest =>
    obtain ⟨rfl, hfinish⟩ := Prod.mk.inj h
    exact .inl ⟨hrest, Option.some.inj hfinish, rfl⟩
  next c cs hrest =>
  split at h
  · next hselect =>
    obtain ⟨rfl, hstuck⟩ := Prod.mk.inj h
    exact .inr (.inl ⟨c, cs, hrest, hselect, (Except.error.inj (Option.some.inj hstuck)).symm, rfl⟩)
  next rule m hselect =>
  dsimp only at h
  rcases hacted : (s.report (.ruleMatched rule s.mode s.position.line s.position.column)).act
    table rule m with ⟨a, fault' | outcome⟩
  · simp only [hacted, Prod.mk.injEq, Option.some.injEq, Except.error.injEq] at h
    obtain ⟨rfl, rfl⟩ := h
    exact .inr (.inr ⟨rule, m, a, hselect, hacted, rfl⟩)
  · rw [hacted] at h
    cases outcome <;> simp at h

end Scan

end BlockLexer
