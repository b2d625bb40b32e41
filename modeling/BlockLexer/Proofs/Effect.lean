import BlockLexer.Proofs.Actions
import BlockLexer.Proofs.Run

/-!
# What a step opens and closes

A step matches one of twenty-eight rules.  For the modes and blocks that are open it
makes no difference which one, as long as it is known what was opened or closed and
what kind of piece came out.  `Scan.Effect` lists the thirteen ways, each with the
condition under which it happens, and `Scan.effect_of_step` and
`Scan.effect_of_step_quiet` say that a step without a fault takes one of them.  Later
proofs split on `Scan.Effect` and never on the rules.  Where the kind of the token is
known, `Scan.Delimits` has the one way that is left.
-/

namespace BlockLexer

/-! ## Brackets -/

/-- The three kinds of brackets. -/
inductive Bracket where
  | paren | array | dict
deriving DecidableEq

namespace Bracket

/-- The kind of the token that opens a bracket. -/
def opening : Bracket → Kind
  | paren => .openParen
  | array => .openArray
  | dict => .openDict

/-- The kind of the token that closes a bracket. -/
def closing : Bracket → Kind
  | paren => .closeParen
  | array => .closeArray
  | dict => .closeDict

theorem count_opening (bracket other : Bracket) :
    [bracket.opening].count other.opening = if other = bracket then 1 else 0 := by
  cases bracket <;> cases other <;> rfl

theorem count_closing (bracket other : Bracket) :
    [bracket.closing].count other.closing = if other = bracket then 1 else 0 := by
  cases bracket <;> cases other <;> rfl

theorem count_opening_of_closing (bracket other : Bracket) :
    [bracket.closing].count other.opening = 0 := by
  cases bracket <;> cases other <;> rfl

theorem count_closing_of_opening (bracket other : Bracket) :
    [bracket.opening].count other.closing = 0 := by
  cases bracket <;> cases other <;> rfl

end Bracket

/-- An operator, a name or a literal: what an expression holds besides its brackets. -/
def Kind.IsTerm (kind : Kind) : Prop :=
  kind.category ≠ .structural ∧ kind.category ≠ .filtered ∧
    ∀ bracket : Bracket, kind ≠ bracket.opening ∧ kind ≠ bracket.closing

instance (kind : Kind) : Decidable kind.IsTerm :=
  decidable_of_iff
    (kind.category ≠ .structural ∧ kind.category ≠ .filtered ∧
      (kind ≠ .openParen ∧ kind ≠ .closeParen) ∧ (kind ≠ .openArray ∧ kind ≠ .closeArray) ∧
        (kind ≠ .openDict ∧ kind ≠ .closeDict))
    ⟨fun ⟨hs, hf, hp, ha, hd⟩ =>
      ⟨hs, hf, fun bracket => match bracket with | .paren => hp | .array => ha | .dict => hd⟩,
      fun ⟨hs, hf, h⟩ => ⟨hs, hf, h .paren, h .array, h .dict⟩⟩

theorem Kind.IsTerm.isFiltered {kind : Kind} (h : kind.IsTerm) : kind.isFiltered = false := by
  simp [Kind.isFiltered, h.2.1]

theorem Kind.IsTerm.count_opening {kind : Kind} (h : kind.IsTerm) (bracket : Bracket) :
    [kind].count bracket.opening = 0 := by
  have hne : bracket.opening ≠ kind := (h.2.2 bracket).1.symm
  rw [List.count_eq_zero, List.mem_singleton]
  exact hne

theorem Kind.IsTerm.count_closing {kind : Kind} (h : kind.IsTerm) (bracket : Bracket) :
    [kind].count bracket.closing = 0 := by
  have hne : bracket.closing ≠ kind := (h.2.2 bracket).2.symm
  rw [List.count_eq_zero, List.mem_singleton]
  exact hne

namespace Brackets

/-- How many brackets of a kind are open. -/
def depth (brackets : Brackets) : Bracket → Nat
  | .paren => brackets.paren
  | .array => brackets.array
  | .dict => brackets.dict

theorem depth_empty (bracket : Bracket) : ({} : Brackets).depth bracket = 0 := by
  cases bracket <;> rfl

theorem isBalanced_iff {brackets : Brackets} :
    brackets.isBalanced = true ↔ ∀ bracket, brackets.depth bracket = 0 := by
  constructor
  · intro h bracket
    simp only [isBalanced, Bool.and_eq_true, decide_eq_true_eq] at h
    cases bracket <;> simp [depth, h]
  · intro h
    simp only [isBalanced, Bool.and_eq_true, decide_eq_true_eq]
    exact ⟨⟨h .paren, h .array⟩, h .dict⟩

/-- A bracket token changes the depth of its own kind by one, and no other. -/
inductive Turns (brackets brackets' : Brackets) : Kind → Prop
  | opens (bracket : Bracket)
      (hdepth : ∀ other, brackets'.depth other =
        brackets.depth other + if other = bracket then 1 else 0) :
      Turns brackets brackets' bracket.opening
  | closes (bracket : Bracket)
      (hdepth : ∀ other, brackets.depth other =
        brackets'.depth other + if other = bracket then 1 else 0) :
      Turns brackets brackets' bracket.closing

theorem Turns.category {brackets brackets' : Brackets} {kind : Kind}
    (h : brackets.Turns brackets' kind) : kind.category = .expression := by
  cases h with
  | opens bracket _ | closes bracket _ => cases bracket <;> rfl

theorem Turns.isFiltered {brackets brackets' : Brackets} {kind : Kind}
    (h : brackets.Turns brackets' kind) : kind.isFiltered = false := by
  simp [Kind.isFiltered, h.category]

/-- The depth changes by what the token opens and closes. -/
theorem Turns.depth_eq {brackets brackets' : Brackets} {kind : Kind}
    (h : brackets.Turns brackets' kind) (other : Bracket) :
    brackets.depth other + [kind].count other.opening =
      brackets'.depth other + [kind].count other.closing := by
  cases h with
  | opens bracket hdepth =>
    rw [hdepth other, bracket.count_opening, bracket.count_closing_of_opening]
    rfl
  | closes bracket hdepth =>
    rw [hdepth other, bracket.count_closing, bracket.count_opening_of_closing]
    rfl

/-- A bracket that is taken turns the depth. -/
theorem turns_of_take? {brackets brackets' : Brackets} {lexeme : List Char} {kind : Kind}
    (h : brackets.take? lexeme = some (kind, brackets')) : Turns brackets brackets' kind := by
  unfold take? at h
  split at h
  · obtain ⟨rfl, rfl⟩ := Prod.mk.inj (Option.some.inj h)
    exact .opens .paren fun other => by cases other <;> rfl
  · obtain ⟨rfl, rfl⟩ := Prod.mk.inj (Option.some.inj h)
    exact .opens .array fun other => by cases other <;> rfl
  · obtain ⟨rfl, rfl⟩ := Prod.mk.inj (Option.some.inj h)
    exact .opens .dict fun other => by cases other <;> rfl
  · obtain ⟨hopen, hout⟩ := Option.ite_none_left_eq_some.1 h
    obtain ⟨rfl, rfl⟩ := Prod.mk.inj (Option.some.inj hout)
    exact .closes .paren fun other => by cases other <;> simp [depth]; omega
  · obtain ⟨hopen, hout⟩ := Option.ite_none_left_eq_some.1 h
    obtain ⟨rfl, rfl⟩ := Prod.mk.inj (Option.some.inj hout)
    exact .closes .array fun other => by cases other <;> simp [depth]; omega
  · obtain ⟨hopen, hout⟩ := Option.ite_none_left_eq_some.1 h
    obtain ⟨rfl, rfl⟩ := Prod.mk.inj (Option.some.inj hout)
    exact .closes .dict fun other => by cases other <;> simp [depth]; omega

end Brackets

namespace Scan

variable {table : LineTable}

/-! ## Effects -/

/-- What a step that is no fault and does not end the scan does to the open modes and
blocks, by the piece that it yields. -/
inductive Effect (table : LineTable) (s t : Scan) : Option Piece → Prop
  /-- Gaps, comments, directives and the parts of a string. -/
  | still {piece? : Option Piece} (hquiet : ∀ piece ∈ piece?, piece.kind.isQuiet = true)
      (hmodes : t.modes = s.modes) (hblocks : t.blocks = s.blocks) : Effect table s t piece?
  /-- The end of a header's line. -/
  | membersBegin {piece : Piece} (next : Option (Nat × Bool)) (hkind : piece.kind = .token .newline)
      (hmodes : t.modes = s.modes) (hblocks : t.blocks = s.blocks.expectMembers next) :
      Effect table s t (some piece)
  | named {piece : Piece} (hkind : piece.kind = .token .instanceName) (hname : s.expectsName = true)
      (hmode : s.mode = .default ∨ s.mode = .block) (hmodes : t.modes = s.modes)
      (hblocks : t.blocks = s.blocks) : Effect table s t (some piece)
  | blockOpens {piece : Piece} {owner : List Char} {blocks : BlockStack}
      (hkind : piece.kind = .token .className) (hvalue : piece.value = .text owner)
      (hline : piece.span.line = s.position.line) (hmode : s.mode = .default ∨ s.mode = .block)
      (hmember : (if s.mode = .block then s.blocks.checkMember (table.indentOf s.position.line)
        else .ok s.blocks) = .ok blocks)
      (hmodes : t.modes = .block :: s.modes)
      (hblocks : t.blocks =
        { owner, line := s.position.line, headerIndent := table.indentOf s.position.line } ::
          blocks) : Effect table s t (some piece)
  | blockCloses {piece : Piece} {frame : Frame} (hkind : piece.kind = .token .blockEnd)
      (hline : piece.span.line = s.position.line) (hmodes : s.modes = .block :: t.modes)
      (hblocks : s.blocks = frame :: t.blocks)
      (hindent : frame.headerIndent = table.indentOf s.position.line) :
      Effect table s t (some piece)
  | expressionOpens {piece : Piece} (hkind : piece.kind = .token .attributeName)
      (hline : piece.span.line = s.position.line) (hmode : s.mode = .block)
      (hmodes : t.modes = .expression {} :: s.modes) (hblocks : t.blocks = s.blocks) :
      Effect table s t (some piece)
  | expressionCloses {piece : Piece} {brackets : Brackets} (hkind : piece.kind = .token .newline)
      (hbalanced : brackets.isBalanced = true) (hmodes : s.modes = .expression brackets :: t.modes)
      (hblocks : t.blocks = s.blocks) : Effect table s t (some piece)
  /-- Operators, names and literals other than strings. -/
  | term {piece : Piece} {kind : Kind} {brackets : Brackets} {outer : List Activation}
      (hkind : piece.kind = .token kind) (hterm : kind.IsTerm)
      (hmode : s.modes = .expression brackets :: outer)
      (hmodes : t.modes = s.modes) (hblocks : t.blocks = s.blocks) : Effect table s t (some piece)
  | bracketTurns {piece : Piece} {kind : Kind} {brackets brackets' : Brackets}
      {outer : List Activation} (hkind : piece.kind = .token kind)
      (hturns : brackets.Turns brackets' kind) (hmode : s.modes = .expression brackets :: outer)
      (hmodes : t.modes = .expression brackets' :: outer) (hblocks : t.blocks = s.blocks) :
      Effect table s t (some piece)
  | bodyOpens {body : OpenBody} (hmode : s.mode = .block) (hmodes : t.modes = .body body :: s.modes)
      (hblocks : t.blocks = s.blocks) : Effect table s t none
  | bodyCloses {piece : Piece} {body : OpenBody} (hkind : piece.kind = .token .body)
      (hmodes : s.modes = .body body :: t.modes) (hblocks : t.blocks = s.blocks) :
      Effect table s t (some piece)
  | stringOpens {piece : Piece} {style : QuoteStyle} {raw : Bool} {line column : Nat}
      (hkind : piece.kind = .stringStart style raw) (hmode : s.mode = .expression)
      (hmodes : t.modes = .string style raw line column :: s.modes)
      (hblocks : t.blocks = s.blocks) : Effect table s t (some piece)
  | stringCloses {piece : Piece} {style : QuoteStyle} {raw : Bool} {line column : Nat}
      (hkind : piece.kind = .stringEnd)
      (hmodes : s.modes = .string style raw line column :: t.modes)
      (hblocks : t.blocks = s.blocks) : Effect table s t (some piece)

/-- An event changes nothing that counts. -/
theorem Effect.of_report {s t : Scan} {event : Event} {piece? : Option Piece}
    (h : Effect table (s.report event) t piece?) : Effect table s t piece? := by
  cases h with
  | still hquiet hmodes hblocks => exact .still hquiet hmodes hblocks
  | membersBegin next hkind hmodes hblocks => exact .membersBegin next hkind hmodes hblocks
  | named hkind hname hmode hmodes hblocks => exact .named hkind hname hmode hmodes hblocks
  | blockOpens hkind hvalue hline hmode hmember hmodes hblocks =>
    exact .blockOpens hkind hvalue hline hmode hmember hmodes hblocks
  | blockCloses hkind hline hmodes hblocks hindent =>
    exact .blockCloses hkind hline hmodes hblocks hindent
  | expressionOpens hkind hline hmode hmodes hblocks =>
    exact .expressionOpens hkind hline hmode hmodes hblocks
  | expressionCloses hkind hbalanced hmodes hblocks =>
    exact .expressionCloses hkind hbalanced hmodes hblocks
  | term hkind hterm hmode hmodes hblocks => exact .term hkind hterm hmode hmodes hblocks
  | bracketTurns hkind hturns hmode hmodes hblocks =>
    exact .bracketTurns hkind hturns hmode hmodes hblocks
  | bodyOpens hmode hmodes hblocks => exact .bodyOpens hmode hmodes hblocks
  | bodyCloses hkind hmodes hblocks => exact .bodyCloses hkind hmodes hblocks
  | stringOpens hkind hmode hmodes hblocks => exact .stringOpens hkind hmode hmodes hblocks
  | stringCloses hkind hmodes hblocks => exact .stringCloses hkind hmodes hblocks

end Scan

/-! ## Modes and their rules -/

/-- The mode of a rule that stands in one table only. -/
def Rule.home? : Rule → Option Mode
  | strayEnd => some .default
  | blockEnd | attributeName | bodyMarker | instanceName | headerNewline => some .block
  | continuation | openString _ | imaginary | float | hex | octal | binary | integer
  | identifier | bracket | expressionNewline | operator => some .expression
  | bodyLine => some .body
  | closeString style | stringText style | loneQuote style => some (.string style)
  | directive | comment | blanks | newline | className | escape => none

theorem Mode.eq_of_mem_rules {mode home : Mode} {rule : Rule} (h : rule ∈ mode.rules)
    (hhome : rule.home? = some home) : mode = home := by
  cases mode with
  | default | block | expression | body =>
    cases rule <;> simp_all [Mode.rules, Rule.home?]
  | string style =>
    cases style <;> cases rule <;> simp_all [Mode.rules, Rule.home?, QuoteStyle.isTriple]

/-- Headers stand between blocks and in blocks. -/
theorem Mode.eq_default_or_eq_block {mode : Mode} (h : .className ∈ mode.rules) :
    mode = .default ∨ mode = .block := by
  cases mode with
  | default | block => simp
  | expression | body => simp [Mode.rules] at h
  | string style => cases style <;> simp [Mode.rules, QuoteStyle.isTriple] at h

namespace Scan

variable {table : LineTable}

theorem exists_of_mode_eq_block {s : Scan} (h : s.mode = .block) :
    ∃ outer, s.modes = .block :: outer := by
  unfold mode at h
  match hmodes : s.modes with
  | [] => simp [hmodes, modeOf] at h
  | .block :: outer => exact ⟨outer, rfl⟩
  | .expression _ :: _ | .body _ :: _ | .string _ _ _ _ :: _ =>
    simp [hmodes, modeOf, Activation.mode] at h

theorem exists_of_mode_eq_expression {s : Scan} (h : s.mode = .expression) :
    ∃ brackets outer, s.modes = .expression brackets :: outer := by
  unfold mode at h
  match hmodes : s.modes with
  | [] => simp [hmodes, modeOf] at h
  | .expression brackets :: outer => exact ⟨brackets, outer, rfl⟩
  | .block :: _ | .body _ :: _ | .string _ _ _ _ :: _ =>
    simp [hmodes, modeOf, Activation.mode] at h

theorem exists_of_mode_eq_string {s : Scan} {style : QuoteStyle} (h : s.mode = .string style) :
    ∃ raw line column outer, s.modes = .string style raw line column :: outer := by
  unfold mode at h
  match hmodes : s.modes with
  | [] => simp [hmodes, modeOf] at h
  | .string _ raw line column :: outer =>
    obtain rfl : _ = style := by simpa [hmodes, modeOf, Activation.mode] using h
    exact ⟨raw, line, column, outer, rfl⟩
  | .block :: _ | .body _ :: _ | .expression _ :: _ =>
    simp [hmodes, modeOf, Activation.mode] at h

theorem mode_eq_string {s : Scan} {style : QuoteStyle} {raw : Bool} {line column : Nat}
    {outer : List Activation} (h : s.modes = .string style raw line column :: outer) :
    s.mode = .string style := by
  rw [mode, h]
  rfl

/-- What was on top before it was taken off. -/
theorem modes_of_pop {s t : Scan} {top : Activation} {outer : List Activation}
    (htop : s.modes = top :: outer) (hpop : t.modes = s.pop.modes) : s.modes = top :: t.modes := by
  have hleft : s.pop.modes = s.modes.tail := rfl
  rw [hpop, hleft, htop, List.tail_cons]

/-! ## The effect of each action -/

theorem isTerm_operatorKind (sign : List Char) : (operatorKind sign).IsTerm := by
  unfold operatorKind
  split <;> decide

/-- An escape is a part of a string, whatever it stands for. -/
theorem isPart_decodeEscape (c : Char) : (decodeEscape c).1.IsPart := by
  unfold decodeEscape
  repeat' split
  all_goals trivial

theorem isPart_escaped (m : Match) (s : Scan) : (s.escaped m).1.IsPart := by
  unfold escaped
  split
  · split
    · trivial
    · exact isPart_decodeEscape _
  · trivial

/-- What a match that is accepted opens and closes. -/
theorem Accepts.effect {s a t : Scan} {m : Match} {rule : Rule} {outcome : Option Piece}
    (hrule : rule ∈ s.mode.rules) (h : Accepts table s m rule a outcome)
    (hmodes : t.modes = a.modes) (hblocks : t.blocks = a.blocks) : Effect table s t outcome := by
  have home {home : Mode} (hhome : rule.home? = some home) : s.mode = home :=
    Mode.eq_of_mem_rules hrule hhome
  cases h with
  | directive | comment | continuation | closingMarker | strayMarker | bodyLine =>
    exact .still (by simp) hmodes hblocks
  | blanks | newline | memberNewline | expressionNewline | stringText | loneQuote =>
    exact .still (by rintro piece ⟨⟩; rfl) hmodes hblocks
  | escape =>
    refine .still ?_ hmodes hblocks
    rintro piece ⟨⟩
    exact (isPart_escaped m s).isQuiet
  | className _ hmember =>
    exact .blockOpens rfl rfl rfl (Mode.eq_default_or_eq_block hrule) hmember hmodes hblocks
  | capitalName _ hname =>
    exact .named rfl hname (Mode.eq_default_or_eq_block hrule) hmodes hblocks
  | instanceName hname => exact .named rfl hname (.inr (home rfl)) hmodes hblocks
  | blockEnd _ hopen hindent =>
    obtain ⟨outer, houter⟩ := exists_of_mode_eq_block (home rfl)
    refine .blockCloses rfl rfl (modes_of_pop houter hmodes) ?_ hindent
    rw [hblocks]
    exact hopen
  | attributeName => exact .expressionOpens rfl rfl (home rfl) hmodes hblocks
  | bodyMarker => exact .bodyOpens (home rfl) hmodes hblocks
  | headerNewline => exact .membersBegin _ rfl hmodes hblocks
  | lastBodyLine htop => exact .bodyCloses rfl (modes_of_pop htop hmodes) hblocks
  | openString => exact .stringOpens rfl (home rfl) hmodes hblocks
  | imaginary | float | hex | octal | binary | integer | trueWord | falseWord | noneWord
  | identifier =>
    obtain ⟨brackets, outer, htop⟩ := exists_of_mode_eq_expression (home rfl)
    exact .term rfl (by decide) htop hmodes hblocks
  | operator =>
    obtain ⟨brackets, outer, htop⟩ := exists_of_mode_eq_expression (home rfl)
    exact .term rfl (isTerm_operatorKind m.lexeme) htop hmodes hblocks
  | bracket htop htake =>
    exact .bracketTurns rfl (Brackets.turns_of_take? htake) htop hmodes hblocks
  | lastNewline htop hbalanced =>
    exact .expressionCloses rfl hbalanced (modes_of_pop htop hmodes) hblocks
  | closeString =>
    obtain ⟨raw, line, column, outer, htop⟩ := exists_of_mode_eq_string (home rfl)
    exact .stringCloses rfl (modes_of_pop htop hmodes) hblocks

/-! ## The effect of a step -/

/-- The selected rule stands in the table of the mode. -/
theorem mem_rules_of_select {mode : Mode} {cs : List Char} {rule : Rule} {m : Match}
    (h : mode.select cs = some (rule, m)) : rule ∈ mode.rules := by
  obtain ⟨r, hr, htake⟩ := List.exists_of_findSome?_eq_some h
  unfold Rule.take? at htake
  split at htake
  · simp at htake
  · simp only [Option.ite_none_left_eq_some, Option.some.injEq, Prod.mk.injEq] at htake
    exact htake.2.1 ▸ hr

@[simp] theorem note_modes (piece : Piece) (s : Scan) : (s.note piece).modes = s.modes := by
  unfold note
  split <;> rfl

@[simp] theorem note_blocks (piece : Piece) (s : Scan) : (s.note piece).blocks = s.blocks := by
  unfold note
  split <;> rfl

theorem note_last (piece : Piece) (s : Scan) :
    (s.note piece).last =
      (notedKind? piece.kind).elim s.last fun kind => some (kind, piece.span.line) := by
  unfold note
  split <;> simp_all

/-- No action changes the memory of the last token. -/
theorem Accepts.last_eq {s a : Scan} {m : Match} {rule : Rule} {outcome : Option Piece}
    (h : Accepts table s m rule a outcome) : a.last = s.last := by
  cases h <;> rfl

/-- No action claims that the last token is a body. -/
theorem Accepts.afterBody_of {s a : Scan} {m : Match} {rule : Rule} {outcome : Option Piece}
    (h : Accepts table s m rule a outcome) (ha : a.afterBody = true) : s.afterBody = true := by
  cases h with
  | closingMarker => cases ha
  | _ => exact ha

/-- A step without a fault and without a piece. -/
theorem effect_of_step_quiet {s t : Scan} (h : s.step table = (t, none)) :
    Effect table s t none ∧ t.last = s.last := by
  rcases cases_of_step none h with ⟨-, -, hfinish⟩ | ⟨rule, m, a, hselect, hact, rfl⟩
  · cases hfinish
  have haccepts := accepts_of_act hact
  exact ⟨.of_report (haccepts.effect (mem_rules_of_select hselect) rfl rfl), haccepts.last_eq⟩

/-- A step without a fault that yields a piece: it comes to the end of the text, where
nothing is open, or has an effect. -/
theorem effect_of_step {s t : Scan} {piece : Piece} (hs : s.isDone = false)
    (h : s.step table = (t, some (.ok piece))) :
    (s.modes = [] ∧ piece.kind = .token .endOfText ∧ t = { s with isDone := true }) ∨
      (t.isDone = false ∧ Effect table s t (some piece) ∧
        t.last = (notedKind? piece.kind).elim s.last fun kind => some (kind, piece.span.line)) := by
  rcases cases_of_step (some piece) h with ⟨-, rfl, hfinish⟩ | ⟨rule, m, a, hselect, hact, rfl⟩
  · obtain ⟨hmodes, rfl⟩ := eq_of_finish (Option.some.inj hfinish).symm
    exact .inl ⟨hmodes, rfl, rfl⟩
  have haccepts := accepts_of_act hact
  refine .inr ⟨?_, ?_, ?_⟩
  · have hplace := congrArg (·.2.2) (place_note piece (a.advance m.lexeme))
    have hdone := act_isDone table rule m
      (s.report (.ruleMatched rule s.mode s.position.line s.position.column))
    rw [hact] at hdone
    exact (hplace.trans hdone).trans hs
  · exact .of_report (haccepts.effect (mem_rules_of_select hselect)
      (note_modes piece (a.advance m.lexeme)) (note_blocks piece (a.advance m.lexeme)))
  · have hsame : (a.advance m.lexeme).last = s.last := haccepts.last_eq
    exact (note_last piece (a.advance m.lexeme)).trans (by rw [hsame])

/-! ## Effects by the kind of the token -/

/-- What a step does that yields a token of the structure, by the kind of the token.  The end
of the text has no effect and so no case. -/
inductive Delimits (table : LineTable) (s t : Scan) (piece : Piece) : Kind → Prop
  | named (hmode : s.mode = .default ∨ s.mode = .block) (hmodes : t.modes = s.modes) :
      Delimits table s t piece .instanceName
  | blockOpens {owner : List Char} {blocks : BlockStack}
      (hline : piece.span.line = s.position.line) (hmode : s.mode = .default ∨ s.mode = .block)
      (hmodes : t.modes = .block :: s.modes)
      (hblocks : t.blocks =
        { owner, line := s.position.line, headerIndent := table.indentOf s.position.line } ::
          blocks) : Delimits table s t piece .className
  | blockCloses {frame : Frame} (hline : piece.span.line = s.position.line)
      (hmodes : s.modes = .block :: t.modes) (hblocks : s.blocks = frame :: t.blocks) :
      Delimits table s t piece .blockEnd
  | expressionOpens (hline : piece.span.line = s.position.line) (hmode : s.mode = .block)
      (hmodes : t.modes = .expression {} :: s.modes) : Delimits table s t piece .attributeName
  | bodyCloses {body : OpenBody} (hmodes : s.modes = .body body :: t.modes) :
      Delimits table s t piece .body

/-- The kind of a token of the structure leaves one effect. -/
theorem Effect.delimits {s t : Scan} {piece : Piece} {kind : Kind}
    (h : Effect table s t (some piece)) (hkind : piece.kind = .token kind)
    (hstructural : kind.category = .structural) : Delimits table s t piece kind := by
  cases h with
  | named hother _ hmode hmodes =>
    obtain rfl := PieceKind.token.inj (hother.symm.trans hkind)
    exact .named hmode hmodes
  | blockOpens hother _ hline hmode _ hmodes hblocks =>
    obtain rfl := PieceKind.token.inj (hother.symm.trans hkind)
    exact .blockOpens hline hmode hmodes hblocks
  | blockCloses hother hline hmodes hblocks =>
    obtain rfl := PieceKind.token.inj (hother.symm.trans hkind)
    exact .blockCloses hline hmodes hblocks
  | expressionOpens hother hline hmode hmodes =>
    obtain rfl := PieceKind.token.inj (hother.symm.trans hkind)
    exact .expressionOpens hline hmode hmodes
  | bodyCloses hother hmodes =>
    obtain rfl := PieceKind.token.inj (hother.symm.trans hkind)
    exact .bodyCloses hmodes
  | still hquiet =>
    have hfiltered := hquiet piece rfl
    rw [hkind] at hfiltered
    simp [PieceKind.isQuiet, Kind.isFiltered, hstructural] at hfiltered
  | membersBegin _ hother | expressionCloses hother =>
    obtain rfl := PieceKind.token.inj (hother.symm.trans hkind)
    cases hstructural
  | term hother hterm =>
    obtain rfl := PieceKind.token.inj (hother.symm.trans hkind)
    exact absurd hstructural hterm.1
  | bracketTurns hother hturns =>
    obtain rfl := PieceKind.token.inj (hother.symm.trans hkind)
    cases hturns.category.symm.trans hstructural
  | stringOpens hother | stringCloses hother => cases hother.symm.trans hkind

end Scan

end BlockLexer
