import BlockLexer.Proofs.Alignment
import BlockLexer.Proofs.BodyOrigins
import BlockLexer.Proofs.LineEnds
import BlockLexer.Proofs.Memberless

/-!
# Members and their header

Members do not stand left of their header.  The comparison is armed by the end of a header's
line, so it has to be seen what happens before: a header may be followed by the name of an
instance, by a member on its own line, by its end, or by the marker of a body.  Only behind a
body that begins on the line of the header nothing is compared.

* `Scan.line_eq_of_step`: between blocks and in a block only the end of a line leaves it.
* `Scan.leadsAbove_of_run`: behind an armed frame the first member is not left of the header.
* `Scan.AtHeader` is a scan that has read nothing but the head of a block,
  `Scan.AtHeader.leaves_of_step` is what it may come to, and
  `Scan.AtHeader.opensWithBody_or_leadsAbove` its run to the first member.
* `LeadsAbove.le`: what holds of the first member holds of all direct members, since they stand in
  one column.
-/

namespace BlockLexer

open Text Pattern Lexeme

/-! ## Lexemes within a line -/

section Within

variable {a b c : Pattern} {stop : Char} {cs : List Char} {m : Match}

/-- A pattern that stops at a character does not take it. -/
theorem Pattern.StopsAt.not_mem {x rest : List Char} (ha : StopsAt stop a) (hcut : IsCut a)
    (h : a cs = some (x, rest)) : stop ∉ x := by
  intro hmem
  have hcs : stop ∈ cs := hcut _ _ _ h ▸ List.mem_append_left rest hmem
  obtain ⟨front, more, rfl, hfront⟩ := List.eq_append_cons_of_mem hcs
  rw [ha front more hfront, Option.map_eq_some_iff] at h
  obtain ⟨⟨y, left⟩, hy, hpair⟩ := h
  obtain ⟨rfl, -⟩ := Prod.mk.inj hpair
  rw [hcut _ _ _ hy] at hfront
  exact hfront (List.mem_append_left left hmem)

theorem Match.not_mem_of_ofPattern (ha : StopsAt stop a) (hcut : IsCut a)
    (h : ofPattern a cs = some m) : stop ∉ m.lexeme := by
  obtain ⟨left, hx, -⟩ := exists_append_of_ofPattern hcut h
  exact ha.not_mem hcut hx

theorem Match.not_mem_of_ofGroup (ha : StopsAt stop a) (hacut : IsCut a) (hb : StopsAt stop b)
    (hbcut : IsCut b) (hc : StopsAt stop c) (hccut : IsCut c) (h : ofGroup a b c cs = some m) :
    stop ∉ m.lexeme := by
  obtain ⟨x, y, z, cs', cs'', left, hx, hy, hz, rfl⟩ := exists_of_ofGroup h
  rw [List.mem_append, List.mem_append, not_or, not_or]
  exact ⟨⟨ha.not_mem hacut hx, hb.not_mem hbcut hy⟩, hc.not_mem hccut hz⟩

/-- Between blocks and in a block no rule but that of the end of a line takes one. -/
theorem Rule.lineFeed_not_mem_of_block {mode : Mode} {rule : Rule}
    (hmode : mode = .default ∨ mode = .block) (hrule : rule ∈ mode.rules) (hend : ¬ rule.EndsLine)
    (h : rule.match? cs = some m) : '\n' ∉ m.lexeme := by
  cases rule with
  | directive => exact Match.not_mem_of_ofPattern isLocal_directive isCut_directive h
  | comment => exact Match.not_mem_of_ofPattern isLocal_comment isCut_comment h
  | blanks => exact Match.not_mem_of_ofPattern (stopsAt_blanks isStop_lineFeed) (isCut_many1 _) h
  | newline => exact absurd (.inl rfl) hend
  | headerNewline => exact absurd (.inr (.inl rfl)) hend
  | strayEnd => exact Match.not_mem_of_ofPattern (stopsAt_endWord isStop_lineFeed) isCut_endWord h
  | className =>
    exact Match.not_mem_of_ofPattern (stopsAt_className isStop_lineFeed)
      ((isCut_one _).seq (isCut_many _)) h
  | blockEnd =>
    exact Match.not_mem_of_ofGroup (stopsAt_endWord isStop_lineFeed) isCut_endWord
      (stopsAt_many rfl) (isCut_many _) stopsAt_nothing isCut_nothing h
  | attributeName =>
    exact Match.not_mem_of_ofGroup stopsAt_nothing isCut_nothing (stopsAt_name isStop_lineFeed)
      isCut_name (stopsAt_assignment isStop_lineFeed) isCut_assignment h
  | bodyMarker => exact Rule.lineFeed_not_mem_of_bodyMarker h
  | instanceName => exact Match.not_mem_of_ofPattern (stopsAt_name isStop_lineFeed) isCut_name h
  | continuation | openString | imaginary | float | hex | octal | binary | integer | identifier
  | bracket | expressionNewline | operator | bodyLine | escape | closeString | stringText
  | loneQuote =>
    rcases hmode with rfl | rfl <;> simp [Mode.rules] at hrule

end Within

/-! ## The first member in a list of tokens -/

/-- A header, the name of an attribute, or an end: what the structure of blocks is made of. -/
def Token.shapes (token : Token) : Bool :=
  token.kind = .className || token.kind = .attributeName || token.kind = .blockEnd

theorem Token.IsMember.shapes {token : Token} (h : token.IsMember) : token.shapes = true := by
  rcases h with h | h <;> simp [Token.shapes, h]

/-- The first member among some tokens, if no end stands in front of it, is not left of a
column. -/
def LeadsAbove (width : Token → Nat) (bound : Nat) (tokens : List Token) : Prop :=
  ∀ token ∈ tokens.find? Token.shapes, token.IsMember → bound ≤ width token

/-- A body that begins on the line of its header: the names of the header come first. -/
def OpensWithBody (line : Nat) (tokens : List Token) : Prop :=
  ∃ names body rest, tokens = names ++ body :: rest ∧
    (∀ name ∈ names, name.kind = .instanceName) ∧ body.kind = .body ∧ body.span.line = line + 1

section First

variable {width : Token → Nat} {bound line : Nat} {token : Token} {tokens head : List Token}

theorem leadsAbove_nil : LeadsAbove width bound [] := by
  intro token htoken
  cases htoken

/-- A token of the structure is the first one. -/
theorem leadsAbove_cons (hshapes : token.shapes = true)
    (htoken : token.IsMember → bound ≤ width token) : LeadsAbove width bound (token :: tokens) := by
  intro first hfirst
  rw [List.find?_cons_of_pos hshapes] at hfirst
  obtain rfl := Option.some.inj hfirst
  exact htoken

/-- No member comes in front of an end. -/
theorem leadsAbove_of_blockEnd (hstop : token.kind = .blockEnd) :
    LeadsAbove width bound (token :: tokens) := by
  refine leadsAbove_cons (by simp [Token.shapes, hstop]) fun hmember => ?_
  rcases hmember with hmember | hmember <;> cases hstop.symm.trans hmember

/-- Any other tokens in front make no difference. -/
theorem LeadsAbove.append (h : LeadsAbove width bound tokens)
    (hhead : ∀ token ∈ head, token.shapes = false) : LeadsAbove width bound (head ++ tokens) := by
  intro first hfirst
  have hnone : head.find? Token.shapes = none := by
    rw [List.find?_eq_none]
    intro token htoken
    simp [hhead token htoken]
  rw [List.find?_append, hnone, Option.none_or] at hfirst
  exact h first hfirst

theorem OpensWithBody.cons (h : OpensWithBody line tokens) (hname : token.kind = .instanceName) :
    OpensWithBody line (token :: tokens) := by
  obtain ⟨names, body, rest, rfl, hnames, hbody⟩ := h
  exact ⟨token :: names, body, rest, rfl, List.forall_mem_cons.2 ⟨hname, hnames⟩, hbody⟩

/-- What is delivered for a piece that is no part of the structure is none, either. -/
theorem Delivered.shapes_eq_false {piece : Piece} (h : Delivered [piece] head)
    (hkinds : ∀ kind ∈ emitted [piece],
      kind ≠ .className ∧ kind ≠ .attributeName ∧ kind ≠ .blockEnd) :
    ∀ token ∈ head, token.shapes = false := by
  intro token htoken
  have hmem : token.kind ∈ emitted [piece] := h.map_kind ▸ List.mem_map_of_mem htoken
  obtain ⟨hclass, hattribute, hend⟩ := hkinds token.kind hmem
  simp [Token.shapes, hclass, hattribute, hend]

end First

/-- A frame that is armed refuses members left of its header. -/
theorem BlockStack.le_of_checkMember {frame : Frame} {outer blocks : BlockStack} {actual : Nat}
    (hbounded : frame.bounded = true) (h : checkMember actual (frame :: outer) = .ok blocks) :
    frame.headerIndent ≤ actual := by
  by_contra hlt
  rw [Nat.not_le] at hlt
  simp [checkMember, hbounded, hlt] at h

/-- The end of a header's line arms the frame, if its members are not measured yet. -/
theorem BlockStack.exists_of_expectMembers (frame : Frame) (next : Option (Nat × Bool))
    (outer : BlockStack) :
    ∃ frame' : Frame, expectMembers next (frame :: outer) = frame' :: outer ∧
      frame'.headerIndent = frame.headerIndent ∧ (frame.bounded = true → frame'.bounded = true) ∧
      (frame.required = none → frame'.bounded = true) := by
  unfold expectMembers
  dsimp only
  split
  · next hsome => exact ⟨frame, rfl, rfl, id, fun hnone => by simp [hnone] at hsome⟩
  · exact ⟨_, rfl, rfl, fun _ => rfl, fun _ => rfl⟩

namespace Scan

variable {table : LineTable} {s t u : Scan} {pieces : List Piece} {piece : Piece}
  {piece? : Option Piece} {line : Nat} {tokens : List Token} {frame : Frame} {outer : BlockStack}

/-! ## Behind a comparison that is armed -/

/-- A run from a state in which the innermost frame is armed: the first member is not left of
its header. -/
theorem leadsAbove_of_run {before : List Piece} (hrun : Run table s pieces u)
    (hdelivered : Delivered pieces tokens) (hnested : Nested table before s)
    (hblocks : s.blocks = frame :: outer) (hbounded : frame.bounded = true) :
    LeadsAbove (widthIn table) frame.headerIndent tokens := by
  induction hrun generalizing before tokens frame with
  | refl s =>
    cases hdelivered
    exact leadsAbove_nil
  | quiet hs hstep _ ih =>
    obtain ⟨he, -⟩ := effect_of_step_quiet hstep
    exact ih hdelivered (nested_of_effect hnested hs he) ((blocks_eq_of_quiet he).trans hblocks)
      hbounded
  | @piece s t t' u piece pieces hs hstep hsettles hrest ih =>
    obtain ⟨head, rest, rfl, hhead, hmore⟩ := hdelivered.uncons
    have hnested' := nested_of_settles hsettles (nested_of_step hnested hs hstep)
    have hdefault (hmode : s.mode = .default) : False := by
      have hlength := hnested.stacked.eq_zero_of_default hmode
      rw [hblocks] at hlength
      cases hlength
    rcases effect_of_step hs hstep with ⟨hmodes, -, -⟩ | ⟨-, he, -⟩
    · exact (hdefault (by rw [mode, hmodes]; rfl)).elim
    cases he.shapes with
    | className hkind hline hmode hmember _ =>
      obtain ⟨header, rfl, hheader, hspan⟩ := hhead.exists_of_kind hkind rfl
      refine leadsAbove_cons (Token.IsMember.shapes (.inr hheader)) fun _ => ?_
      rw [if_pos (hmode.resolve_left hdefault), hblocks] at hmember
      rw [widthIn, hspan, hline]
      exact BlockStack.le_of_checkMember hbounded hmember
    | attributeName hkind hline hsame =>
      obtain ⟨name, rfl, hname, hspan⟩ := hhead.exists_of_kind hkind rfl
      have hcheck := hsettles.checkMember hkind
      rw [hsame, hblocks, ← hspan] at hcheck
      exact leadsAbove_cons (Token.IsMember.shapes (.inl hname)) fun _ =>
        BlockStack.le_of_checkMember hbounded hcheck
    | blockEnd hkind _ _ _ =>
      obtain ⟨stop, rfl, hstop, -⟩ := hhead.exists_of_kind hkind rfl
      exact leadsAbove_of_blockEnd hstop
    | other hkinds hpiece hkeeps =>
      have hblocks' := hsettles.blocks_eq hpiece
      obtain ⟨frame', hframe, hindent, harmed⟩ : ∃ frame' : Frame, t.blocks = frame' :: outer ∧
          frame'.headerIndent = frame.headerIndent ∧ frame'.bounded = true := by
        rcases hkeeps with hsame | ⟨next, hexpects⟩
        · exact ⟨frame, hsame.trans hblocks, rfl, hbounded⟩
        · obtain ⟨frame', hframe, hindent, harmed, -⟩ :=
            BlockStack.exists_of_expectMembers frame next outer
          exact ⟨frame', by rw [hexpects, hblocks, hframe], hindent, harmed hbounded⟩
      rw [← hindent]
      exact (ih hmore hnested' (hblocks'.trans hframe) harmed).append
        (hhead.shapes_eq_false hkinds)

/-! ## The head of a block -/

/-- Between blocks and in a block a step stays on its line, unless it takes the end of it. -/
theorem line_eq_of_step (piece? : Option Piece) (hmode : s.mode = .default ∨ s.mode = .block)
    (hstep : s.step table = (t, piece?.map Except.ok))
    (hrule : ∀ rule m, s.mode.select s.rest = some (rule, m) → ¬ rule.EndsLine) :
    t.position.line = s.position.line := by
  rcases exists_of_step piece? hstep with ⟨-, rfl, -⟩ | ⟨rule, m, a, left, hselect, -, -, -, -,
    hmoved⟩
  · rfl
  have hfree := Rule.lineFeed_not_mem_of_block hmode (mem_rules_of_select hselect)
    (hrule rule m hselect) (Mode.match?_of_select hselect)
  rw [hmoved, Position.line_after, List.count_eq_zero.2 hfree, Nat.add_zero]

/-- The end of a line yields nothing else. -/
theorem not_endsLine_of_step {rule : Rule} {m : Match}
    (hstep : s.step table = (t, some (.ok piece))) (hkind : piece.kind ≠ .token .newline)
    (hselect : s.mode.select s.rest = some (rule, m)) : ¬ rule.EndsLine := by
  intro hend
  rcases exists_of_step (some piece) hstep with ⟨hrest, -⟩ | ⟨rule', m', a, left, hselect', -, hact,
    -⟩
  · exact Mode.ne_nil_of_select hselect hrest
  · obtain ⟨rfl, rfl⟩ := Prod.mk.inj (Option.some.inj (hselect.symm.trans hselect'))
    obtain ⟨a', piece', hact', hkind'⟩ := exists_act_of_endsLine table hend m
      (s.report (.ruleMatched rule s.mode s.position.line s.position.column))
    obtain ⟨-, hpiece⟩ := Prod.mk.inj (hact.symm.trans hact')
    obtain rfl := Option.some.inj (Except.ok.inj hpiece)
    exact hkind hkind'

/-- The last token behind a step: what it yields, if this counts, or else the one before. -/
theorem last_of_rest (piece? : Option Piece) (hs : s.isDone = false) (hrest : s.rest ≠ [])
    (hstep : s.step table = (t, piece?.map Except.ok)) :
    t.last = (piece?.bind fun piece =>
      (notedKind? piece.kind).map fun kind => (kind, piece.span.line)).or s.last := by
  cases piece? with
  | none => exact (effect_of_step_quiet hstep).2
  | some piece =>
    have ht := isDone_of_step hs hrest hstep
    rcases effect_of_step hs hstep with ⟨-, -, rfl⟩ | ⟨-, -, hlast⟩
    · cases ht
    · rw [hlast, Option.bind_some]
      cases notedKind? piece.kind <;> rfl

/-- A scan that has read nothing of a block but its head, and is still on the line of it.  The
members are not measured yet. -/
structure AtHeader (table : LineTable) (line : Nat) (s : Scan) : Prop where
  mode : s.mode = .block
  header : s.followsHeader = true
  place : s.position.line = line
  frame : ∃ frame outer, s.blocks = frame :: outer ∧
    frame.headerIndent = table.indentOf line ∧ frame.required = none

/-- What a step behind the head of a block comes to. -/
inductive AtHeader.Leaves (table : LineTable) (line : Nat) (t : Scan) : Option Piece → Prop
  | stays {piece? : Option Piece} (h : AtHeader table line t)
      (hpiece : ∀ piece ∈ piece?, piece.kind.isQuiet = true ∨ piece.kind = .token .instanceName) :
      Leaves table line t piece?
  | arms {piece : Piece} {frame : Frame} {outer : BlockStack} (hkind : piece.kind = .token .newline)
      (hblocks : t.blocks = frame :: outer) (hindent : frame.headerIndent = table.indentOf line)
      (hbounded : frame.bounded = true) : Leaves table line t (some piece)
  | begins {piece : Piece}
      (hkind : piece.kind = .token .className ∨ piece.kind = .token .attributeName)
      (hline : piece.span.line = line) : Leaves table line t (some piece)
  | ends {piece : Piece} (hkind : piece.kind = .token .blockEnd) : Leaves table line t (some piece)
  | opens {body : OpenBody} {outer : List Activation} (hmodes : t.modes = .body body :: outer)
      (hmarker : body.marker = line) : Leaves table line t none

/-- The end of the line arms the frame. -/
theorem AtHeader.leaves_of_headerNewline {m : Match} (h : AtHeader table line s)
    (hselect : s.mode.select s.rest = some (.headerNewline, m))
    (hstep : s.step table = (t, piece?.map Except.ok)) : AtHeader.Leaves table line t piece? := by
  obtain ⟨frame, outer, hblocks, hindent, hrequired⟩ := h.frame
  obtain ⟨frame', hframe, hindent', -, harmed⟩ := BlockStack.exists_of_expectMembers frame
    ((table.nextContentAfter s.position.line).map fun line => (line.indent, line.isEnd)) outer
  have htaken := step_of_header table hselect h.header
  rw [hstep] at htaken
  obtain ⟨rfl, hpiece⟩ := Prod.mk.inj htaken
  cases piece? with
  | none => cases hpiece
  | some piece =>
    obtain rfl := Except.ok.inj (Option.some.inj hpiece)
    exact .arms rfl ((congrArg _ hblocks).trans hframe) (hindent'.trans hindent) (harmed hrequired)

/-- Behind the head of a block come gaps, the name of the instance, the end of the line, a member
or an end on this line, or the marker of a body. -/
theorem AtHeader.leaves_of_step (piece? : Option Piece) (h : AtHeader table line s)
    (hnumbered : table.Numbered)
    (hs : s.isDone = false) (hstep : s.step table = (t, piece?.map Except.ok)) :
    AtHeader.Leaves table line t piece? := by
  obtain ⟨outer, hmodes⟩ := exists_of_mode_eq_block h.mode
  have hrest : s.rest ≠ [] := by
    intro hnil
    rcases exists_of_step piece? hstep with ⟨-, -, hfinish⟩ | ⟨rule, m, a, left, hselect, -⟩
    · rw [finish, hmodes] at hfinish
      cases piece? <;> cases hfinish
    · exact Mode.ne_nil_of_select hselect hnil
  by_cases hfeed : ∃ m, s.mode.select s.rest = some (.headerNewline, m)
  · obtain ⟨m, hselect⟩ := hfeed
    exact h.leaves_of_headerNewline hselect hstep
  have hline : t.position.line = s.position.line := by
    refine line_eq_of_step piece? (.inr h.mode) hstep fun rule m hselect hend => ?_
    have hmem := mem_rules_of_select hselect
    rw [h.mode] at hmem
    rcases hend with rfl | rfl | rfl
    · simp [Mode.rules] at hmem
    · exact hfeed ⟨m, hselect⟩
    · simp [Mode.rules] at hmem
  have hstays (hsame : t.modes = s.modes) (hblocks : t.blocks = s.blocks)
      (hheader : t.followsHeader = true)
      (hpiece : ∀ piece ∈ piece?, piece.kind.isQuiet = true ∨ piece.kind = .token .instanceName) :
      AtHeader.Leaves table line t piece? :=
    .stays ⟨(congrArg modeOf hsame).trans h.mode, hheader, hline.trans h.place,
      hblocks ▸ h.frame⟩ hpiece
  cases effect_of_rest piece? hs hrest hstep with
  | still hquiet hsame hblocks =>
    refine hstays hsame hblocks ?_ fun piece hpiece => .inl (hquiet piece hpiece)
    have hheader := h.header
    unfold followsHeader at hheader ⊢
    have hnone : (piece?.bind fun piece =>
        (notedKind? piece.kind).map fun kind => (kind, piece.span.line)) = none := by
      rw [Option.bind_eq_none_iff]
      intro piece hpiece
      rw [PieceKind.notedKind?_of_isQuiet (hquiet piece hpiece), Option.map_none]
    rwa [last_of_rest piece? hs hrest hstep, hnone, Option.none_or, hline]
  | membersBegin next hkind _ hexpects =>
    obtain ⟨frame, outer, hblocks, hindent, hrequired⟩ := h.frame
    obtain ⟨frame', hframe, hindent', -, harmed⟩ :=
      BlockStack.exists_of_expectMembers frame next outer
    rw [hblocks, hframe] at hexpects
    exact .arms hkind hexpects (hindent'.trans hindent) (harmed hrequired)
  | @named piece hkind _ _ hsame hblocks =>
    refine hstays hsame hblocks ?_ fun piece hpiece => .inr (Option.some.inj hpiece ▸ hkind)
    obtain ⟨lexeme, more, hcuts, -⟩ := exists_cuts_of_step hstep (by rw [hkind]; decide)
    have hspan : piece.span.line = s.position.line := by
      rw [hcuts.span]
      rfl
    have hlast := last_of_rest (some piece) hs hrest hstep
    rw [Option.bind_some, hkind, hspan, ← hline] at hlast
    rw [followsHeader, hlast]
    simp [notedKind?, Kind.isFiltered, Kind.category]
  | blockOpens hkind _ hspan _ _ _ _ => exact .begins (.inl hkind) (hspan.trans h.place)
  | blockCloses hkind => exact .ends hkind
  | expressionOpens hkind hspan _ _ _ => exact .begins (.inr hkind) (hspan.trans h.place)
  | bodyOpens _ hopened _ =>
    obtain ⟨marker, hmarker, rfl, -⟩ := exists_marker_of_step hstep h.mode hopened
    exact .opens hopened ((hnumbered _ _ hmarker).trans h.place)
  | stringOpens _ hmode => cases h.mode.symm.trans hmode
  | expressionCloses _ _ hother | term _ _ hother | bracketTurns _ _ hother | bodyCloses _ hother
  | stringCloses _ hother => cases hmodes.symm.trans hother

/-- Where a body is open, the first token is the body. -/
theorem exists_body_of_run {body : OpenBody} {outer : List Activation}
    (hrun : Run table s pieces u) (hdelivered : Delivered pieces tokens)
    (hmodes : s.modes = .body body :: outer) :
    tokens = [] ∨ ∃ token rest, tokens = token :: rest ∧ token.kind = .body ∧
      token.span.line = body.marker + 1 := by
  induction hrun with
  | refl s =>
    cases hdelivered
    exact .inl rfl
  | quiet hs hstep _ ih =>
    obtain ⟨-, ⟨-, -, hsame⟩ | ⟨closed, -, -, hpiece⟩⟩ := step_in_body none hmodes hstep
    · exact ih hdelivered (hsame.trans hmodes)
    · cases hpiece
  | @piece s t t' u piece pieces hs hstep hsettles _ ih =>
    obtain ⟨-, ⟨-, hpiece, -⟩ | ⟨closed, hclosed, -, hpiece⟩⟩ :=
      step_in_body (some piece) hmodes hstep
    · cases hpiece
    · obtain rfl := Option.some.inj hpiece
      obtain ⟨head, rest, rfl, hhead, -⟩ := hdelivered.uncons
      obtain ⟨token, rfl, hkind, hspan⟩ := hhead.exists_of_kind rfl rfl
      obtain ⟨ahead, last, -, -, -, rfl⟩ := OpenBody.exists_of_step hclosed
      exact .inr ⟨token, rest, rfl, hkind, congrArg Span.line hspan⟩

/-- From the head of a block a run comes to a body on this line, or its first member is not left of
the header. -/
theorem AtHeader.opensWithBody_or_leadsAbove {before : List Piece} (h : AtHeader table line s)
    (hnumbered : table.Numbered) (hrun : Run table s pieces u)
    (hdelivered : Delivered pieces tokens) (hnested : Nested table before s) :
    OpensWithBody line tokens ∨ LeadsAbove (widthIn table) (table.indentOf line) tokens := by
  induction hrun generalizing before tokens with
  | refl s =>
    cases hdelivered
    exact .inr leadsAbove_nil
  | quiet hs hstep hrest ih =>
    cases h.leaves_of_step none hnumbered hs hstep with
    | stays h' _ =>
      exact ih h' hdelivered (nested_of_effect hnested hs (effect_of_step_quiet hstep).1)
    | opens hmodes hmarker =>
      rcases exists_body_of_run hrest hdelivered hmodes with rfl | ⟨token, rest, rfl, hkind, hspan⟩
      · exact .inr leadsAbove_nil
      · exact .inl ⟨[], token, rest, rfl, by simp, hkind, by rw [hspan, hmarker]⟩
  | @piece s t t' u piece pieces hs hstep hsettles hrest ih =>
    obtain ⟨head, rest, rfl, hhead, hmore⟩ := hdelivered.uncons
    have hnested' := nested_of_settles hsettles (nested_of_step hnested hs hstep)
    have hsame (hattribute : piece.kind ≠ .token .attributeName)
        (hstring : piece.kind ≠ .stringEnd) : t' = t := hsettles.eq_of_other hattribute hstring
    cases h.leaves_of_step (some piece) hnumbered hs hstep with
    | stays h' hpiece =>
      rcases hpiece piece rfl with hquiet | hname
      · have hnone := PieceKind.notedKind?_of_isQuiet hquiet
        have hnil : head = [] := by
          have hkinds := hhead.map_kind
          rwa [emitted_singleton_none hnone, List.map_eq_nil_iff] at hkinds
        rw [hsame (fun he => by rw [he] at hnone; cases hnone)
          (fun he => by rw [he] at hnone; cases hnone)] at ih hnested'
        rw [hnil]
        exact ih h' hmore hnested'
      · obtain ⟨name, rfl, hkind, -⟩ := hhead.exists_of_kind hname rfl
        rw [hsame (by rw [hname]; decide) (by rw [hname]; decide)] at ih hnested'
        refine (ih h' hmore hnested').imp (fun hopens => hopens.cons hkind) fun hleads => ?_
        have hhead : ∀ token ∈ [name], token.shapes = false := by simp [Token.shapes, hkind]
        exact hleads.append hhead
    | arms hkind hblocks hindent hbounded =>
      rw [hsame (by rw [hkind]; decide) (by rw [hkind]; decide)] at hrest hnested'
      have hleads := leadsAbove_of_run hrest hmore hnested' hblocks hbounded
      rw [hindent] at hleads
      refine .inr (hleads.append (hhead.shapes_eq_false ?_))
      rw [emitted_singleton_filtered hkind rfl]
      simp
    | begins hkind hline =>
      obtain ⟨token, rfl, hmember, hspan⟩ : ∃ token, head = [token] ∧ token.IsMember ∧
          token.span = piece.span := by
        rcases hkind with hkind | hkind
        all_goals obtain ⟨token, rfl, htoken, hspan⟩ := hhead.exists_of_kind hkind rfl
        · exact ⟨token, rfl, .inr htoken, hspan⟩
        · exact ⟨token, rfl, .inl htoken, hspan⟩
      refine .inr (leadsAbove_cons hmember.shapes fun _ => ?_)
      rw [widthIn, hspan, hline]
    | ends hkind =>
      obtain ⟨stop, rfl, hstop, -⟩ := hhead.exists_of_kind hkind rfl
      exact .inr (leadsAbove_of_blockEnd hstop)

/-- Behind a header a scan is at the head of its block. -/
theorem atHeader_of_step (hs : s.isDone = false) (hstep : s.step table = (t, some (.ok piece)))
    (hkind : piece.kind = .token .className) : AtHeader table piece.span.line t := by
  rcases effect_of_step hs hstep with ⟨-, hend, -⟩ | ⟨-, he, hlast⟩
  · cases hend.symm.trans hkind
  cases he.delimits hkind rfl with
  | @blockOpens owner blocks hspan hmode hmodes hblocks =>
    have hline : t.position.line = piece.span.line := by
      rw [hspan]
      exact line_eq_of_step (some piece) hmode hstep fun rule m hselect =>
        not_endsLine_of_step hstep (by rw [hkind]; decide) hselect
    refine ⟨by rw [mode, hmodes]; rfl, ?_, hline, _, blocks, hblocks, by rw [hspan], rfl⟩
    rw [followsHeader, hlast, hkind, hline]
    simp [notedKind?, Kind.isFiltered, Kind.category]

end Scan

/-! ## Direct members -/

/-- A direct member of the block whose header stands in front of some tokens: between the two all
blocks are closed. -/
def IsDirectMember (member : Token) (after : List Token) : Prop :=
  ∃ inner rest, after = inner ++ member :: rest ∧ IsClosed inner ∧ member.IsMember

section Direct

variable {width : Token → Nat} {indent bound : Nat} {member : Token} {tokens after : List Token}

/-- Tokens that are no part of the structure open and close nothing. -/
theorem openings_closings_of_shapes (h : ∀ token ∈ tokens, token.shapes = false) :
    openings tokens = 0 ∧ closings tokens = 0 := by
  constructor
  all_goals
    refine List.count_eq_zero.2 fun hmem => ?_
    obtain ⟨token, htoken, hkind⟩ := List.mem_map.1 hmem
    have hnot := h token htoken
    simp [Token.shapes, hkind] at hnot

theorem isClosed_of_shapes (h : ∀ token ∈ tokens, token.shapes = false) : IsClosed tokens := by
  refine ⟨fun beginning hbeginning => ?_, ?_⟩
  · have hbeginning' : ∀ token ∈ beginning, token.shapes = false :=
      fun token htoken => h token (hbeginning.mem htoken)
    rw [(openings_closings_of_shapes hbeginning').2]
    exact Nat.zero_le _
  · obtain ⟨hopenings, hclosings⟩ := openings_closings_of_shapes h
    rw [hopenings, hclosings]

/-- All direct members of a block have one width.  What is closed does not reach beyond the end of
the block. -/
theorem EndsAt.exists_width (h : EndsAt width indent after) :
    ∃ required, ∀ member, IsDirectMember member after → width member = required := by
  obtain ⟨members, stop, outside, rfl, hmembers, hstop, -, required, hat⟩ := h
  have hnot : ¬ stop.IsMember := by
    rintro (hmember | hmember) <;> cases hstop.symm.trans hmember
  refine ⟨required, ?_⟩
  rintro member ⟨inner, rest, hsplit, hinner, hmember⟩
  obtain ⟨between, rfl, hrest⟩ : ∃ between, members = inner ++ between ∧
      member :: rest = between ++ stop :: outside := by
    rcases List.append_eq_append_iff.1 hsplit with ⟨between, hbetween, hrest⟩ | h
    · cases between with
      | nil => exact ⟨[], by rw [hbetween, List.append_nil, List.append_nil], hrest.symm⟩
      | cons first between =>
        obtain ⟨rfl, -⟩ := List.cons.inj hrest
        have hle := hinner.prefixes (members ++ [stop])
          ⟨between, by rw [hbetween, List.append_assoc]; rfl⟩
        have htotal := hmembers.total
        rw [openings_append, closings_append, openings_cons, closings_cons, if_pos hstop,
          if_neg (by rw [hstop]; decide), openings_nil, closings_nil] at hle
        omega
    · exact h
  cases between with
  | nil =>
    obtain ⟨rfl, -⟩ := List.cons.inj hrest
    exact absurd hmember hnot
  | cons first between =>
    obtain ⟨rfl, -⟩ := List.cons.inj hrest
    exact hat inner _ between rfl hinner.total hmember

/-- If there is a direct member, the first token of the structure is one. -/
theorem IsDirectMember.exists_first (h : IsDirectMember member after) :
    ∃ first, after.find? Token.shapes = some first ∧ first.IsMember ∧
      IsDirectMember first after := by
  obtain ⟨inner, rest, rfl, hinner, hmember⟩ := h
  cases hfind : inner.find? Token.shapes with
  | none =>
    refine ⟨member, ?_, hmember, inner, rest, rfl, hinner, hmember⟩
    rw [List.find?_append, hfind, Option.none_or, List.find?_cons_of_pos hmember.shapes]
  | some first =>
    obtain ⟨hshapes, front, behind, rfl, hfront⟩ := List.find?_eq_some_iff_append.1 hfind
    have hfront : ∀ token ∈ front, token.shapes = false :=
      fun token htoken => by simpa using hfront token htoken
    have hfirst : first.IsMember := by
      simp only [Token.shapes, Bool.or_eq_true, decide_eq_true_eq] at hshapes
      rcases hshapes with (hclass | hattribute) | hend
      · exact .inr hclass
      · exact .inl hattribute
      · obtain ⟨hopenings, hclosings⟩ := openings_closings_of_shapes hfront
        have hle := hinner.prefixes (front ++ [first]) ⟨behind, by simp⟩
        rw [openings_append, closings_append, hopenings, hclosings, openings_cons, closings_cons,
          if_pos hend, if_neg (by rw [hend]; decide), openings_nil, closings_nil] at hle
        omega
    refine ⟨first, ?_, hfirst, front, behind ++ member :: rest, ?_, isClosed_of_shapes hfront,
      hfirst⟩
    · rw [List.find?_append, hfind, Option.some_or]
    · rw [List.append_assoc, List.cons_append]

/-- If the first member is not left of the header, no direct member is. -/
theorem LeadsAbove.le (h : LeadsAbove width bound after) (hends : EndsAt width indent after)
    (hmember : IsDirectMember member after) : bound ≤ width member := by
  obtain ⟨required, hrequired⟩ := hends.exists_width
  obtain ⟨first, hfirst, hshaped, hdirect⟩ := hmember.exists_first
  have hle := h first hfirst hshaped
  rwa [hrequired first hdirect, ← hrequired member hmember] at hle

end Direct

/-! ## All blocks -/

/-- A token that is a piece of its own divides the pieces of a stream. -/
theorem Delivered.exists_of_append_cons {pieces : List Piece} {before after : List Token}
    {token : Token} (h : Delivered pieces (before ++ token :: after)) :
    ∃ front piece behind, pieces = front ++ piece :: behind ∧ Delivered front before ∧
      Stands piece token ∧ Delivered behind after := by
  generalize hall : before ++ token :: after = all at h
  induction h generalizing before with
  | nil => simp at hall
  | @drop first _ _ hpiece _ ih =>
    obtain ⟨front, piece, behind, rfl, hfront, hstands⟩ := ih hall
    exact ⟨first :: front, piece, behind, rfl, .drop hpiece hfront, hstands⟩
  | @keep first _ other _ hother hkept more ih =>
    cases before with
    | nil =>
      obtain ⟨rfl, rfl⟩ := List.cons.inj hall
      exact ⟨[], first, _, rfl, .nil, hother, more⟩
    | cons head before =>
      obtain ⟨rfl, hrest⟩ := List.cons.inj hall
      obtain ⟨front, piece, behind, rfl, hfront, hstands⟩ := ih hrest
      exact ⟨first :: front, piece, behind, rfl, .keep hother hkept hfront, hstands⟩

open Files

/-- Behind every header of a source that is read to its end comes a body on the line of the header,
or a first member that is not left of it. -/
theorem Lexer.opensWithBody_or_leadsAbove {source : Source} {before after : List Token}
    {header : Token} (hnumbered : source.table.Numbered)
    (h : tokens source = .ok (before ++ header :: after)) (hkind : header.kind = .className) :
    OpensWithBody header.span.line after ∨
      LeadsAbove (Scan.widthIn source.table) (source.table.indentOf header.span.line) after := by
  obtain ⟨pieces, t, hrun, ht, hdelivered, -⟩ := run_of_tokens h
  obtain ⟨front, piece, behind, rfl, -, hstands, hbehind⟩ := hdelivered.exists_of_append_cons
  cases hstands with
  | string _ hstring => cases hkind.symm.trans hstring
  | token hpiece _ hspan =>
    rw [hkind] at hpiece
    obtain ⟨m, hfront, hrest⟩ := Scan.Run.split hrun
    obtain ⟨m', t', v, hquiet, hm', hstep, hsettles, hmore⟩ := Scan.Run.uncons hrest
    have hnested := Scan.nested_of_run hquiet
      (Scan.nested_of_run hfront (Scan.nested_of_start rfl rfl))
    have hheader := Scan.atHeader_of_step hm' hstep hpiece
    obtain rfl := hsettles.eq_of_other (by rw [hpiece]; decide) (by rw [hpiece]; decide)
    rw [hspan]
    exact hheader.opensWithBody_or_leadsAbove hnumbered hmore hbehind
      (Scan.nested_of_step hnested hm' hstep)

end BlockLexer
