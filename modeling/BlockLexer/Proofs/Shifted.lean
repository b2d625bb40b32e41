import BlockLexer.Proofs.Cursor

/-!
# Scans that read the same text in another place

The same lines may stand further down in a text, or further to the right.  A scan of them
then does the same, up to the numbers that it remembers.  This module says so for one
step, whatever the reason for the other numbers is.

* `Shift` is what the numbers differ by, and `Shift.Positions`, `Shift.Activations`,
  `Shift.frame`, `Shift.Memories` and `Shift.Pieces` are what it does to the parts of a scan
  and to what it yields.
* `Shift.Answers` is what the two line tables have to agree on: only the rules that look
  into a table ask for it.
* `Shift.follows_act` is the action of a rule: the second scan accepts a match in the same way as
  the first one.  `Shift.exists_step` is the whole step, and `Shift.exists_settles` is what the later
  stages do.
* `Shift.still` is the shift by nothing.  What is left of `Shift.exists_step` then is that
  the events of a scan have no influence on it.
-/

namespace BlockLexer

open Text

section Related

variable {α β : Type} {r : α → β → Prop}

theorem eq_none_of_rel {b? : Option β} (h : Option.Rel r none b?) : b? = none := by
  cases h
  rfl

theorem exists_of_rel_some {a : α} {b? : Option β} (h : Option.Rel r (some a) b?) :
    ∃ b, b? = some b ∧ r a b := by
  cases h with
  | some hrel => exact ⟨_, rfl, hrel⟩

end Related

/-- What the numbers of one scan differ by from those of another one.  Bytes are only
related, so that they may be left out of account. -/
structure Shift where
  /-- How many lines stand above. -/
  lines : Nat
  /-- How much further every indentation is. -/
  width : Nat
  bytes : Nat → Nat → Prop
  bytes_add : ∀ {m n : Nat}, bytes m n → ∀ k, bytes (m + k) (n + k)

namespace Shift

/-- The shift by nothing. -/
def still : Shift where
  lines := 0
  width := 0
  bytes := Eq
  bytes_add h k := congrArg (· + k) h

variable (d : Shift)

/-! ## The parts of a scan -/

/-- Two places.  How far the columns differ depends on the line that is read. -/
structure Positions (columns : Nat) (p p' : Position) : Prop where
  offset : d.bytes p.offset p'.offset
  line : p'.line = p.line + d.lines
  column : p'.column = p.column + columns

/-- Two open bodies with the same names. -/
structure Bodies (body body' : OpenBody) : Prop where
  marker : body'.marker = body.marker + d.lines
  start : d.bytes body.start body'.start
  indent : body'.indent = body.indent + d.width
  names : body'.names = body.names

/-- Two activations.  Where a string was opened is of interest to faults only. -/
inductive Activations : Activation → Activation → Prop
  | block : Activations .block .block
  | expression (brackets : Brackets) : Activations (.expression brackets) (.expression brackets)
  | body {body body' : OpenBody} (h : d.Bodies body body') : Activations (.body body) (.body body')
  | string (style : QuoteStyle) (raw : Bool) (line column line' column' : Nat) :
      Activations (.string style raw line column) (.string style raw line' column')

/-- The frame of the same block. -/
def frame (f : Frame) : Frame :=
  { f with
    line := f.line + d.lines
    headerIndent := f.headerIndent + d.width
    required := f.required.map (· + d.width) }

/-- The same value.  Only a body knows its place. -/
def value : Value → Value
  | .body text => .body { text with startLine := text.startLine + d.lines }
  | other => other

/-- What is remembered of the last token as long as the header of a block may go on. -/
def header : Option (Kind × Nat) → Option (Kind × Nat)
  | some (kind, line) =>
    if kind = .className || kind = .instanceName then some (kind, line) else none
  | none => none

/-- What two scans remember. -/
structure Memories (s s' : Scan) : Prop where
  modes : List.Forall₂ d.Activations s.modes s'.modes
  blocks : s'.blocks = s.blocks.map d.frame
  last : header s'.last = (header s.last).map fun token => (token.1, token.2 + d.lines)
  afterBody : s'.afterBody = s.afterBody
  isDone : s'.isDone = s.isDone

/-- Two pieces with the same meaning.  A body always is in the first column. -/
structure Pieces (columns : Nat) (piece piece' : Piece) : Prop where
  kind : piece'.kind = piece.kind
  value : piece'.value = d.value piece.value
  start : d.bytes piece.span.start piece'.span.start
  stop : d.bytes piece.span.stop piece'.span.stop
  line : piece'.span.line = piece.span.line + d.lines
  column : piece'.span.column =
    piece.span.column + if piece.kind = .token .body then 0 else columns

/-- Two bodies that have been closed. -/
structure Closings (closed closed' : ClosedBody) : Prop where
  text : closed'.text = { closed.text with startLine := closed.text.startLine + d.lines }
  start : d.bytes closed.start closed'.start
  stop : d.bytes closed.stop closed'.stop

/-- What the line tables of two scans say to a rule. -/
structure Answers (table table' : LineTable) (rule : Rule) (s s' : Scan) : Prop where
  indent : rule = .className ∨ rule = .blockEnd →
    table'.indentOf s'.position.line = table.indentOf s.position.line + d.width
  marker : rule = .bodyMarker → s.afterBody = false →
    Option.Rel (fun marker marker' => d.Bodies (.ofMarker table marker) (.ofMarker table' marker'))
      (table.get? s.position.line) (table'.get? s'.position.line)
  content : rule = .headerNewline → s.followsHeader = true →
    ((table'.nextContentAfter s'.position.line).map fun line => (line.indent, line.isEnd)) =
      (table.nextContentAfter s.position.line).map fun line => (line.indent + d.width, line.isEnd)
  body : rule = .bodyLine → ∀ body body' outer, s.modes = .body body :: outer →
    d.Bodies body body' →
    Option.Rel d.Closings (body.step table s.position.line) (body'.step table' s'.position.line)

variable {d} {columns : Nat} {s s' a : Scan} {table table' : LineTable}

/-! ## Places -/

/-- The same characters are passed, none of which ends a line. -/
theorem Positions.after {p p' : Position} (h : d.Positions columns p p') {cs : List Char}
    (hcs : '\n' ∉ cs) : d.Positions columns (p.after cs) (p'.after cs) := by
  induction cs generalizing p p' with
  | nil => exact h
  | cons c cs ih =>
    rw [List.mem_cons, not_or] at hcs
    obtain ⟨hc, hcs⟩ := hcs
    have hne : c ≠ '\n' := Ne.symm hc
    have hnext : d.Positions columns (p.next c) (p'.next c) := by
      unfold Position.next
      rw [if_neg hne, if_neg hne]
      refine ⟨d.bytes_add h.offset _, h.line, ?_⟩
      show p'.column + 1 = p.column + 1 + columns
      have hcolumn := h.column
      omega
    exact ih hnext hcs

/-- Behind the end of a line the columns agree. -/
theorem Positions.next_lineFeed {p p' : Position} (h : d.Positions columns p p') :
    d.Positions 0 (p.next '\n') (p'.next '\n') := by
  refine ⟨d.bytes_add h.offset _, ?_, rfl⟩
  show p'.line + 1 = p.line + 1 + d.lines
  have hline := h.line
  omega

/-- Where the columns agree, any characters may be passed. -/
theorem Positions.after_of_zero {p p' : Position} (h : d.Positions 0 p p') (cs : List Char) :
    d.Positions 0 (p.after cs) (p'.after cs) := by
  induction cs generalizing p p' with
  | nil => exact h
  | cons c cs ih =>
    have hnext : d.Positions 0 (p.after [c]) (p'.after [c]) := by
      by_cases hc : c = '\n'
      · rw [hc]
        exact h.next_lineFeed
      · apply h.after
        simpa using Ne.symm hc
    exact ih hnext

/-! ## Blocks -/

/-- What holds of the first member of a block holds of the same block elsewhere. -/
theorem checkMember_map {blocks after : BlockStack} {actual : Nat}
    (h : blocks.checkMember actual = .ok after) :
    BlockStack.checkMember (actual + d.width) (blocks.map d.frame) = .ok (after.map d.frame) := by
  cases blocks with
  | nil =>
    cases h
    rfl
  | cons frame outer =>
    simp only [BlockStack.checkMember, List.map_cons, Shift.frame] at h ⊢
    by_cases hbound : (frame.bounded && decide (actual < frame.headerIndent)) = true
    · rw [if_pos hbound] at h
      cases h
    · have hbound' :
          ¬ (frame.bounded && decide (actual + d.width < frame.headerIndent + d.width)) = true := by
        simpa using hbound
      rw [if_neg hbound] at h
      rw [if_neg hbound']
      cases hrequired : frame.required with
      | none =>
        rw [hrequired] at h
        cases h
        rfl
      | some required =>
        rw [hrequired] at h
        dsimp only [Option.map_some] at h ⊢
        by_cases heq : required = actual
        · rw [if_pos heq] at h
          rw [if_pos (congrArg (· + d.width) heq)]
          obtain rfl := Except.ok.inj h
          simp only [List.map_cons, Shift.frame, hrequired, Option.map_some]
        · rw [if_neg heq] at h
          cases h

theorem expectMembers_map (blocks : BlockStack) (next : Option (Nat × Bool)) :
    BlockStack.expectMembers (next.map fun line => (line.1 + d.width, line.2))
        (blocks.map d.frame) =
      (blocks.expectMembers next).map d.frame := by
  cases blocks with
  | nil => rfl
  | cons frame outer =>
    cases hrequired : frame.required with
    | some required => simp [BlockStack.expectMembers, Shift.frame, hrequired]
    | none =>
      simp only [BlockStack.expectMembers, List.map_cons, Shift.frame, hrequired]
      rcases next with - | ⟨indent, - | -⟩ <;> rfl

/-! ## Memories -/

theorem Memories.report (h : d.Memories s s') (event event' : Event) :
    d.Memories (s.report event) (s'.report event') :=
  ⟨h.modes, h.blocks, h.last, h.afterBody, h.isDone⟩

theorem Memories.push (h : d.Memories s s') {activation activation' : Activation}
    (ha : d.Activations activation activation') :
    d.Memories (s.push activation) (s'.push activation') :=
  ⟨.cons ha h.modes, h.blocks, h.last, h.afterBody, h.isDone⟩

theorem Memories.pop (h : d.Memories s s') : d.Memories s.pop s'.pop := by
  refine ⟨?_, h.blocks, h.last, h.afterBody, h.isDone⟩
  show List.Forall₂ d.Activations s.modes.tail s'.modes.tail
  match s.modes, s'.modes, h.modes with
  | _, _, .nil => exact .nil
  | _, _, .cons _ houter => exact houter

theorem Memories.withBlocks (h : d.Memories s s') (blocks : BlockStack) :
    d.Memories { s with blocks } { s' with blocks := blocks.map d.frame } :=
  ⟨h.modes, rfl, h.last, h.afterBody, h.isDone⟩

/-- The mode is the same. -/
theorem Memories.mode (h : d.Memories s s') : s'.mode = s.mode := by
  unfold Scan.mode
  match s.modes, s'.modes, h.modes with
  | _, _, .nil => rfl
  | _, _, .cons hfirst _ => cases hfirst <;> rfl

/-- Whether a header may go on is the same on both lines. -/
theorem Memories.headed (h : d.Memories s s') (hline : s'.position.line = s.position.line + d.lines) :
    s'.followsHeader = s.followsHeader ∧ s'.expectsName = s.expectsName := by
  -- Both questions depend on the last token only as far as it is part of a header.
  have hasked (u : Scan) :
      u.followsHeader = (header u.last).any (fun token => token.2 = u.position.line) ∧
        u.expectsName = (header u.last).any
          (fun token => token.1 = .className && token.2 = u.position.line) := by
    unfold Scan.followsHeader Scan.expectsName header
    rcases u.last with - | ⟨kind, line⟩
    · exact ⟨rfl, rfl⟩
    · by_cases hclass : kind = .className
      · simp [hclass]
      · by_cases hname : kind = .instanceName <;> simp [hclass, hname]
  rw [(hasked s').1, (hasked s).1, (hasked s').2, (hasked s).2, h.last, hline, Option.any_map,
    Option.any_map]
  simp

/-- Behind two pieces with the same meaning the memories are the same again. -/
theorem Memories.note (h : d.Memories s s') {piece piece' : Piece}
    (hpieces : d.Pieces columns piece piece') : d.Memories (s.note piece) (s'.note piece') := by
  unfold Scan.note
  rw [hpieces.kind]
  cases Scan.notedKind? piece.kind with
  | none => exact h
  | some kind =>
    refine ⟨h.modes, h.blocks, ?_, rfl, h.isDone⟩
    show header (some (kind, piece'.span.line)) = (header (some (kind, piece.span.line))).map _
    rw [hpieces.line]
    unfold header
    dsimp only
    split <;> rfl

/-! ## The action of each rule -/

/-- What an action comes to that does the same as another one: no fault, the same
memories, and a piece with the same meaning if there is one. -/
def Follows (d : Shift) (columns : Nat) (a : Scan) (piece? : Option Piece)
    (result : Scan × Outcome) : Prop :=
  ∃ a' piece?', result = (a', .ok piece?') ∧ d.Memories a a' ∧
    Option.Rel (d.Pieces columns) piece? piece?'

theorem Follows.quiet {a' : Scan} (h : d.Memories a a') :
    d.Follows columns a none (a', .ok none) :=
  ⟨a', none, rfl, h, .none⟩

theorem Follows.some {a' : Scan} {piece piece' : Piece} (h : d.Memories a a')
    (hpieces : d.Pieces columns piece piece') :
    d.Follows columns a (some piece) (a', .ok (some piece')) :=
  ⟨a', _, rfl, h, .some hpieces⟩

section Actions

variable (h : d.Memories s s') (hp : d.Positions columns s.position s'.position)
variable {m : Match} {piece? : Option Piece}

include hp in
/-- The same characters, taken at two places. -/
theorem pieces_piece {kind : PieceKind} {value : Value} (lexeme : List Char)
    (hkind : kind ≠ .token .body) (hvalue : d.value value = value) :
    d.Pieces columns (s.piece kind value lexeme) (s'.piece kind value lexeme) where
  kind := rfl
  value := hvalue.symm
  start := hp.offset
  stop := d.bytes_add hp.offset (byteSize lexeme)
  line := hp.line
  column := by
    show s'.position.column = s.position.column + if kind = .token .body then 0 else columns
    rw [if_neg hkind]
    exact hp.column

include hp in
theorem pieces_token {kind : Kind} {value : Value} (lexeme : List Char) (hkind : kind ≠ .body)
    (hvalue : d.value value = value) :
    d.Pieces columns (s.token kind value lexeme) (s'.token kind value lexeme) :=
  pieces_piece hp lexeme (fun he => hkind (PieceKind.token.inj he)) hvalue

/-- The second scan accepts the match in a way of its own. -/
theorem Follows.of_accepts {a a' : Scan} {rule : Rule} {piece?' : Option Piece}
    (haccepts : Scan.Accepts table' s' m rule a' piece?') (h : d.Memories a a')
    (hpieces : Option.Rel (d.Pieces columns) piece? piece?') :
    d.Follows columns a piece? (s'.act table' rule m) :=
  ⟨a', piece?', haccepts.act_eq, h, hpieces⟩

include h

/-- What is open is of the same kind. -/
theorem exists_modes_eq_cons {activation : Activation} {outer : List Activation}
    (hmodes : s.modes = activation :: outer) :
    ∃ activation' outer', s'.modes = activation' :: outer' ∧
      d.Activations activation activation' ∧ List.Forall₂ d.Activations outer outer' := by
  have hopen := h.modes
  rw [hmodes] at hopen
  obtain ⟨activation', outer', hfirst, houter, hmodes'⟩ := List.forall₂_cons_left_iff.1 hopen
  exact ⟨activation', outer', hmodes', hfirst, houter⟩

theorem exists_modes_eq_cons' {activation' : Activation} {outer' : List Activation}
    (hmodes : s'.modes = activation' :: outer') :
    ∃ activation outer, s.modes = activation :: outer ∧ d.Activations activation activation' := by
  have hopen := h.modes
  rw [hmodes] at hopen
  obtain ⟨activation, outer, hfirst, -, hmodes⟩ := List.forall₂_cons_right_iff.1 hopen
  exact ⟨activation, outer, hmodes, hfirst⟩

/-- A header is checked as a member in the same way. -/
theorem checkMember_of_className {blocks : BlockStack}
    (hindent : table'.indentOf s'.position.line = table.indentOf s.position.line + d.width)
    (hmember : (if s.mode = .block then s.blocks.checkMember (s.indentHere table)
      else .ok s.blocks) = .ok blocks) :
    (if s'.mode = .block then s'.blocks.checkMember (s'.indentHere table')
      else .ok s'.blocks) = .ok (blocks.map d.frame) := by
  rw [h.mode, h.blocks, Scan.indentHere, hindent]
  by_cases hmode : s.mode = .block
  · rw [if_pos hmode] at hmember ⊢
    exact checkMember_map hmember
  · rw [if_neg hmode] at hmember ⊢
    obtain rfl := Except.ok.inj hmember
    rfl

theorem escaped_eq (m : Match) : s'.escaped m = s.escaped m := by
  have hraw : s'.inRawString = s.inRawString := by
    unfold Scan.inRawString
    match s.modes, s'.modes, h.modes with
    | _, _, .nil => rfl
    | _, _, .cons hfirst _ => cases hfirst <;> rfl
  unfold Scan.escaped
  rw [hraw]

include hp

/-- Two scans whose tables answer alike do the same with the same match: each way in which the
one accepts it is open to the other. -/
theorem follows_act {rule : Rule} (hanswers : d.Answers table table' rule s s')
    (hact : s.act table rule m = (a, .ok piece?)) :
    d.Follows columns a piece? (s'.act table' rule m) := by
  obtain ⟨hheaded, hexpects⟩ := h.headed hp.line
  have token {kind : Kind} {value : Value} {lexeme : List Char} (hkind : kind ≠ .body)
      (hvalue : d.value value = value) :
      Option.Rel (d.Pieces columns) (some (s.token kind value lexeme))
        (some (s'.token kind value lexeme)) :=
    .some (pieces_token hp lexeme hkind hvalue)
  have part {kind : PieceKind} {value : Value} {lexeme : List Char} (hkind : kind ≠ .token .body)
      (hvalue : d.value value = value) :
      Option.Rel (d.Pieces columns) (some (s.piece kind value lexeme))
        (some (s'.piece kind value lexeme)) :=
    .some (pieces_piece hp lexeme hkind hvalue)
  cases Scan.accepts_of_act hact with
  | directive => exact .of_accepts .directive h .none
  | comment => exact .of_accepts .comment h .none
  | continuation => exact .of_accepts .continuation h .none
  | blanks => exact .of_accepts .blanks h (token (by decide) rfl)
  | newline => exact .of_accepts .newline h (token (by decide) rfl)
  | @className blocks hheader hmember =>
    have hindent := hanswers.indent (.inl rfl)
    refine .of_accepts (.className (hheaded.trans hheader)
      (checkMember_of_className h hindent hmember)) (Memories.push ?_ .block) (token (by decide) rfl)
    refine ⟨h.modes, ?_, h.last, h.afterBody, h.isDone⟩
    show _ :: blocks.map d.frame = List.map d.frame (_ :: blocks)
    rw [List.map_cons, Shift.frame, hp.line, Scan.indentHere, hindent]
    rfl
  | capitalName hheader hname =>
    exact .of_accepts (.capitalName (hheaded.trans hheader) (hexpects.trans hname)) h
      (token (by decide) rfl)
  | instanceName hname =>
    exact .of_accepts (.instanceName (hexpects.trans hname)) h (token (by decide) rfl)
  | @blockEnd frame outer hsign hopen hindent =>
    have hopen' : s'.blocks = d.frame frame :: outer.map d.frame := by
      rw [h.blocks, hopen, List.map_cons]
    have hindent' : (d.frame frame).headerIndent = s'.indentHere table' := by
      rw [Scan.indentHere, hanswers.indent (.inr rfl)]
      exact congrArg (· + d.width) hindent
    exact .of_accepts (.blockEnd hsign hopen' hindent') ((h.withBlocks outer).report _ _).pop
      (token (by decide) rfl)
  | attributeName hfree =>
    exact .of_accepts (.attributeName hfree) (h.push (.expression {})) (token (by decide) rfl)
  | closingMarker hafter =>
    exact .of_accepts (.closingMarker (h.afterBody.trans hafter))
      ⟨h.modes, h.blocks, h.last, rfl, h.isDone⟩ .none
  | strayMarker hafter hline =>
    have hmarker := hanswers.marker rfl hafter
    rw [hline] at hmarker
    exact .of_accepts (.strayMarker (h.afterBody.trans hafter) (eq_none_of_rel hmarker)) h .none
  | bodyMarker hafter hline =>
    have hmarker := hanswers.marker rfl hafter
    rw [hline] at hmarker
    obtain ⟨marker', hline', hbodies⟩ := exists_of_rel_some hmarker
    exact .of_accepts (.bodyMarker (h.afterBody.trans hafter) hline') (h.push (.body hbodies)) .none
  | headerNewline hheader =>
    refine .of_accepts (.headerNewline (hheaded.trans hheader))
      ⟨h.modes, ?_, h.last, h.afterBody, h.isDone⟩ (token (by decide) rfl)
    show BlockStack.expectMembers _ s'.blocks = (BlockStack.expectMembers _ s.blocks).map d.frame
    rw [hanswers.content rfl hheader, h.blocks, ← expectMembers_map, Option.map_map]
    rfl
  | memberNewline hheader =>
    exact .of_accepts (.memberNewline (hheaded.trans hheader)) h (token (by decide) rfl)
  | bodyLine hopen =>
    refine .of_accepts (.bodyLine fun body' outer' hmodes' => ?_) h .none
    obtain ⟨_, outer, hmodes, hbodies⟩ := exists_modes_eq_cons' h hmodes'
    cases hbodies with
    | body hbodies =>
    have hsteps := hanswers.body rfl _ _ _ hmodes hbodies
    rw [hopen _ _ hmodes] at hsteps
    exact eq_none_of_rel hsteps
  | lastBodyLine hmodes hstep =>
    obtain ⟨_, outer', hmodes', hbodies, -⟩ := exists_modes_eq_cons h hmodes
    cases hbodies with
    | body hbodies =>
    have hsteps := hanswers.body rfl _ _ _ hmodes hbodies
    rw [hstep] at hsteps
    obtain ⟨closed', hstep', hclosings⟩ := exists_of_rel_some hsteps
    refine .of_accepts (.lastBodyLine hmodes' hstep') (h.report _ _).pop
      (.some ⟨rfl, ?_, hclosings.start, hclosings.stop, ?_, rfl⟩)
    · exact congrArg Value.body hclosings.text
    · exact congrArg BodyText.startLine hclosings.text
  | openString =>
    exact .of_accepts .openString (h.push (.string _ _ _ _ _ _)) (part (by simp) rfl)
  | imaginary hread => exact .of_accepts (.imaginary hread) h (token (by decide) rfl)
  | float hread => exact .of_accepts (.float hread) h (token (by decide) rfl)
  | hex hbound => exact .of_accepts (.hex hbound) h (token (by decide) rfl)
  | octal hbound => exact .of_accepts (.octal hbound) h (token (by decide) rfl)
  | binary hbound => exact .of_accepts (.binary hbound) h (token (by decide) rfl)
  | integer hbound => exact .of_accepts (.integer hbound) h (token (by decide) rfl)
  | trueWord hword => exact .of_accepts (.trueWord hword) h (token (by decide) rfl)
  | falseWord hword => exact .of_accepts (.falseWord hword) h (token (by decide) rfl)
  | noneWord hword => exact .of_accepts (.noneWord hword) h (token (by decide) rfl)
  | identifier hfree => exact .of_accepts (.identifier hfree) h (token (by decide) rfl)
  | @bracket _ brackets' kind _ hmodes htake =>
    obtain ⟨_, outer', hmodes', hfirst, houter⟩ := exists_modes_eq_cons h hmodes
    cases hfirst
    have hkind : kind ≠ .body := by
      rintro rfl
      cases (Brackets.turns_of_take? htake).category
    exact .of_accepts (.bracket hmodes' htake)
      ⟨.cons (.expression brackets') houter, h.blocks, h.last, h.afterBody, h.isDone⟩
      (token hkind rfl)
  | lastNewline hmodes hbalanced =>
    obtain ⟨_, outer', hmodes', hfirst, -⟩ := exists_modes_eq_cons h hmodes
    cases hfirst
    exact .of_accepts (.lastNewline hmodes' hbalanced) h.pop (token (by decide) rfl)
  | expressionNewline hopen =>
    refine .of_accepts (.expressionNewline fun brackets outer' hmodes' => ?_) h
      (token (by decide) rfl)
    obtain ⟨_, outer, hmodes, hfirst⟩ := exists_modes_eq_cons' h hmodes'
    cases hfirst
    exact hopen brackets outer hmodes
  | operator =>
    refine .of_accepts .operator h (token (fun hbody => ?_) rfl)
    exact (Scan.isTerm_operatorKind m.lexeme).1 (congrArg Kind.category hbody)
  | escape =>
    have hpart : (s.escaped m).1 ≠ .token .body := by
      intro hbody
      have hpart := Scan.isPart_escaped m s
      rw [hbody] at hpart
      cases hpart
    refine .of_accepts .escape h ?_
    rw [escaped_eq h]
    exact part hpart rfl
  | stringText => exact .of_accepts .stringText h (part (by simp) rfl)
  | loneQuote => exact .of_accepts .loneQuote h (part (by simp) rfl)
  | closeString => exact .of_accepts .closeString h.pop (part (by simp) rfl)

end Actions

end Shift

/-! ## Steps -/

namespace Shift

variable {d : Shift} {columns : Nat} {s s' t u : Scan} {table table' : LineTable}
  {piece? : Option Piece}

/-- Two scans that select the same rule take the same step, if the action of the one follows
that of the other. -/
theorem exists_step_of_follows {rule : Rule} {m m' : Match}
    (hselect : s.mode.select s.rest = some (rule, m))
    (hselect' : s'.mode.select s'.rest = some (rule, m'))
    (hfollows : ∀ a,
      (s.report (.ruleMatched rule s.mode s.position.line s.position.column)).act table rule m =
        (a, .ok piece?) → d.Follows columns a piece?
      ((s'.report (.ruleMatched rule s'.mode s'.position.line s'.position.column)).act table' rule
        m'))
    (hstep : s.step table = (t, piece?.map Except.ok)) :
    ∃ t' piece?', s'.step table' = (t', piece?'.map Except.ok) ∧ d.Memories t t' ∧
      Option.Rel (d.Pieces columns) piece? piece?' ∧ s.Moves t m ∧ s'.Moves t' m' := by
  rcases Scan.exists_of_step piece? hstep with ⟨hnil, -⟩ | ⟨rule₁, m₁, a, left, hselect₁, -, hact, -⟩
  · exact absurd hnil (Mode.ne_nil_of_select hselect)
  obtain ⟨rfl, rfl⟩ := Prod.mk.inj (Option.some.inj (hselect₁.symm.trans hselect))
  have hstep₁ := Scan.step_of_select hselect hact
  obtain ⟨rfl, -⟩ := Prod.mk.inj (hstep.symm.trans hstep₁)
  obtain ⟨a', piece?', hact', hmemories, hpieces⟩ := hfollows a hact
  have hstep' := Scan.step_of_select hselect' hact'
  refine ⟨_, piece?', hstep', ?_, hpieces, Scan.moves_of_act hact, Scan.moves_of_act hact'⟩
  have hmoved : d.Memories (a.advance m₁.lexeme) (a'.advance m'.lexeme) :=
    ⟨hmemories.modes, hmemories.blocks, hmemories.last, hmemories.afterBody, hmemories.isDone⟩
  cases hpieces with
  | none => exact hmoved
  | some hpiece => exact hmoved.note hpiece

/-- Two scans that select the same rule, and whose tables answer it alike, take the same
step.  The two matches need not be the same where the action does not look at them. -/
theorem exists_step {rule : Rule} {m m' : Match} (h : d.Memories s s')
    (hp : d.Positions columns s.position s'.position)
    (hselect : s.mode.select s.rest = some (rule, m))
    (hselect' : s'.mode.select s'.rest = some (rule, m'))
    (hsame : ∀ v : Scan, v.act table' rule m' = v.act table' rule m)
    (hanswers : d.Answers table table' rule s s')
    (hstep : s.step table = (t, piece?.map Except.ok)) :
    ∃ t' piece?', s'.step table' = (t', piece?'.map Except.ok) ∧ d.Memories t t' ∧
      Option.Rel (d.Pieces columns) piece? piece?' ∧ s.Moves t m ∧ s'.Moves t' m' := by
  refine exists_step_of_follows hselect hselect' (fun a hact => ?_) hstep
  rw [hsame]
  exact follows_act (h.report _ _) hp
    ⟨hanswers.indent, hanswers.marker, hanswers.content, hanswers.body⟩ hact

/-- Where both scans have come to the end of their text, and the one finds nothing open,
the other does not either. -/
theorem exists_finish (table' : LineTable) {piece : Piece} (h : d.Memories s s')
    (hp : d.Positions columns s.position s'.position) (hfinish : s.finish table = .ok piece) :
    ∃ piece', s'.finish table' = .ok piece' ∧ d.Pieces columns piece piece' := by
  unfold Scan.finish at hfinish ⊢
  match hmodes : s.modes, hmodes' : s'.modes, h.modes with
  | _, _, .nil =>
    rw [hmodes] at hfinish
    cases hfinish
    exact ⟨_, rfl, pieces_token hp [] (by decide) rfl⟩
  | _, _, .cons .block _ | _, _, .cons (.body _) _ | _, _, .cons (.string _ _ _ _ _ _) _ =>
    rw [hmodes] at hfinish
    cases hfinish
  | _, _, .cons (.expression brackets) _ =>
    rw [hmodes] at hfinish
    dsimp only at hfinish
    split at hfinish <;> cases hfinish

/-- What the later stages do to a scan they do to the other one, too. -/
theorem exists_settles {piece piece' : Piece} (h : d.Memories t s')
    (hpieces : d.Pieces columns piece piece') (hsettles : Scan.Settles table piece t u)
    (hindent : piece.kind = .token .attributeName →
      table'.indentOf piece'.span.line = table.indentOf piece.span.line + d.width) :
    ∃ u', Scan.Settles table' piece' s' u' ∧ d.Memories u u' := by
  cases hsettles with
  | @member blocks hkind hcheck =>
    refine ⟨{ s' with blocks := blocks.map d.frame }, .member (hpieces.kind.trans hkind) ?_,
      h.withBlocks blocks⟩
    rw [h.blocks, hindent hkind]
    exact checkMember_map hcheck
  | string event hkind =>
    exact ⟨s'.report event, .string event (hpieces.kind.trans hkind), h.report event event⟩
  | other hattribute hstring =>
    exact ⟨s', .other (by rwa [hpieces.kind]) (by rwa [hpieces.kind]), h⟩

/-! ## The shift by nothing -/

theorem eq_of_positions_still {p p' : Position} (h : still.Positions 0 p p') : p' = p := by
  obtain ⟨hoffset, hline, hcolumn⟩ := h
  obtain ⟨offset, line, column⟩ := p
  obtain ⟨offset', line', column'⟩ := p'
  cases hoffset
  cases hline
  cases hcolumn
  rfl

theorem eq_of_bodies_still {body body' : OpenBody} (h : still.Bodies body body') :
    body' = body := by
  obtain ⟨hmarker, hstart, hindent, hnames⟩ := h
  obtain ⟨marker, start, indent, names⟩ := body
  obtain ⟨marker', start', indent', names'⟩ := body'
  cases hmarker
  cases hstart
  cases hindent
  cases hnames
  rfl

theorem value_still (value : Value) : still.value value = value := by
  cases value <;> rfl

theorem eq_of_pieces_still {piece piece' : Piece} (h : still.Pieces 0 piece piece') :
    piece' = piece := by
  obtain ⟨hkind, hvalue, hstart, hstop, hline, hcolumn⟩ := h
  obtain ⟨kind, value, ⟨start, stop, line, column⟩⟩ := piece
  obtain ⟨kind', value', ⟨start', stop', line', column'⟩⟩ := piece'
  rw [ite_self] at hcolumn
  rw [value_still] at hvalue
  cases hkind
  cases hvalue
  cases hstart
  cases hstop
  cases hline
  cases hcolumn
  rfl

theorem pieces_still (piece : Piece) : still.Pieces 0 piece piece :=
  ⟨rfl, (value_still piece.value).symm, rfl, rfl, rfl, by rw [ite_self]; rfl⟩

theorem frame_still (frame : Frame) : still.frame frame = frame := by
  obtain ⟨owner, line, headerIndent, required, bounded⟩ := frame
  cases required <;> rfl

/-- A table answers like itself. -/
theorem answers_still {rule : Rule} (hp : still.Positions 0 s.position s'.position) :
    still.Answers table table rule s s' := by
  have hposition := eq_of_positions_still hp
  refine ⟨fun _ => ?_, fun _ _ => ?_, fun _ _ => ?_, fun _ body body' _ _ hbodies => ?_⟩
  · rw [hposition]
    rfl
  · rw [hposition]
    cases table.get? s.position.line with
    | none => exact .none
    | some marker => exact .some ⟨rfl, rfl, rfl, rfl⟩
  · rw [hposition]
    rfl
  · rw [hposition, eq_of_bodies_still hbodies]
    cases body.step table s.position.line with
    | none => exact .none
    | some closed => exact .some ⟨rfl, rfl, rfl⟩

end Shift

end BlockLexer
