import BlockLexer.Proofs.Places
import BlockLexer.Proofs.Sight
import BlockLexer.Proofs.Trails

/-!
# Strings on one line

A string may run over the end of a line.  Where the tokens of a run show that none does, no
step within a string does, either.

* `KeepsLine` says of the pieces of a run that every string ends on the line on which it
  begins, and `Scan.keepsLine_of_assembled` reads it off the tokens.
* `KeepsLine.lineFeed_not_mem`: within a string no end of a line is taken.
* `KeepsLine.step`: what is still to come keeps it, too.
-/

namespace BlockLexer

open Text

/-- Every string among some pieces ends on the line on which it begins.  `line?` is the line
of a string that is open in front of them. -/
inductive KeepsLine : (line? : Option Nat) → List Piece → Prop
  | nil : KeepsLine none []
  | token {piece : Piece} {kind : Kind} {more : List Piece} (hkind : piece.kind = .token kind)
      (hmore : KeepsLine none more) : KeepsLine none (piece :: more)
  | start {piece : Piece} {style : QuoteStyle} {raw : Bool} {more : List Piece}
      (hkind : piece.kind = .stringStart style raw)
      (hmore : KeepsLine (some piece.span.line) more) : KeepsLine none (piece :: more)
  | part {piece : Piece} {line : Nat} {more : List Piece} (hpart : piece.kind.IsPart)
      (hmore : KeepsLine (some line) more) : KeepsLine (some line) (piece :: more)
  | stop {piece : Piece} {more : List Piece} (hkind : piece.kind = .stringEnd)
      (hmore : KeepsLine none more) : KeepsLine (some piece.span.line) (piece :: more)

theorem KeepsLine.parts {line : Nat} {parts more : List Piece}
    (hparts : ∀ part ∈ parts, part.kind.IsPart) (hmore : KeepsLine (some line) more) :
    KeepsLine (some line) (parts ++ more) := by
  induction parts with
  | nil => exact hmore
  | cons part parts ih =>
    obtain ⟨hpart, hparts⟩ := List.forall_mem_cons.1 hparts
    exact .part hpart (ih hparts)

/-- Where no string is open, the next piece does not go on with one. -/
theorem KeepsLine.not_goesOn {pieces : List Piece} (h : KeepsLine none pieces) :
    ∀ piece ∈ pieces.head?, ¬ piece.kind.GoesOn := by
  rintro piece hpiece (hpart | hstop)
  · cases h with
    | nil => cases hpiece
    | token hkind | start hkind =>
      obtain rfl := Option.some.inj hpiece
      rw [hkind] at hpart
      cases hpart
  · cases h with
    | nil => cases hpiece
    | token hkind | start hkind =>
      obtain rfl := Option.some.inj hpiece
      cases hkind.symm.trans hstop

/-- Between two byte offsets a text has what stands there. -/
theorem Text.sliceBytes_append (before lexeme after : List Char) :
    sliceBytes (byteSize before) (byteSize before + byteSize lexeme) (before ++ lexeme ++ after) =
      lexeme := by
  unfold sliceBytes
  rw [List.append_assoc, dropBytes_byteSize_append, Nat.add_sub_cancel_left,
    takeBytes_byteSize_append]

namespace Scan

variable {table : LineTable} {text : List Char} {s t u v : Scan} {pieces more : List Piece}
  {piece : Piece} {piece? : Option Piece} {line : Nat}

/-- The line of the string that is open, if one is. -/
def openLine (s : Scan) : Option Nat :=
  match s.mode with
  | .string _ => some s.position.line
  | _ => none

theorem openLine_of_string {style : QuoteStyle} (hmode : s.mode = .string style) :
    s.openLine = some s.position.line := by
  rw [openLine, hmode]

theorem openLine_eq_none (hmode : ∀ style, s.mode ≠ .string style) : s.openLine = none := by
  unfold openLine
  split
  · next style hstring => exact absurd hstring (hmode style)
  · rfl

theorem exists_of_openLine (h : s.openLine = some line) : ∃ style, s.mode = .string style := by
  unfold openLine at h
  split at h
  · next style hmode => exact ⟨style, hmode⟩
  · cases h

/-- Where no token that is a string holds the end of a line, no string does. -/
theorem keepsLine_of_assembled {tokens : List Token} (hassembled : Assembled pieces tokens)
    (hrun : Run table s pieces u) (hstands : StandsIn text s)
    (hfree : ∀ token ∈ tokens, token.kind = .string →
      '\n' ∉ sliceBytes token.span.start token.span.stop text) : KeepsLine none pieces := by
  induction hassembled generalizing s with
  | nil => exact .nil
  | @drop first more token tokens hmakes hfiltered _ ih =>
    cases hmakes with
    | token hkind =>
      obtain ⟨v, hfirst, hrest⟩ := Run.split hrun
      exact .token hkind (ih hrest (standsIn_of_run hfirst hstands) hfree)
    | string _ _ _ hliteral =>
      rw [Assembly.kind_of_literal hliteral] at hfiltered
      cases hfiltered
  | @keep first more token tokens hmakes hkept _ ih =>
    obtain ⟨htoken, hothers⟩ := List.forall_mem_cons.1 hfree
    cases hmakes with
    | token hkind =>
      obtain ⟨v, hfirst, hrest⟩ := Run.split hrun
      exact .token hkind (ih hrest (standsIn_of_run hfirst hstands) hothers)
    | @string start stop parts style raw _ hstart hparts hstop hliteral =>
      obtain ⟨m, t, v, m', t', v', hquiet, hm, hopen, hsettles, hinner, -, hclose, hsettles',
        hrest⟩ := Run.uncons_string hrun
      obtain ⟨v'', hfirst, hrest'⟩ := Run.split hrun
      obtain ⟨letter, inner, hencloses⟩ :=
        exists_encloses hm hopen hsettles hinner hclose hstart hparts hstop
      obtain ⟨passed, htext, hposition⟩ := standsIn_of_run hquiet hstands
      obtain ⟨hkind, hspan⟩ := span_of_literal hliteral
      have hoffset : m.position.offset = byteSize passed := by
        rw [hposition, Position.offset_eq]
      have hline : stop.span.line = start.span.line := by
        have hslice := htoken hkind
        have hsize : token.span.start = byteSize passed ∧ token.span.stop = byteSize passed +
            byteSize (letter ++ style.quotes ++ inner ++ style.quotes) := by
          rw [hspan, ← hoffset]
          exact ⟨hencloses.offset, hencloses.endOffset⟩
        rw [hsize.1, hsize.2, htext, hencloses.rest, ← List.append_assoc passed,
          sliceBytes_append] at hslice
        have hcount : (letter ++ style.quotes ++ inner).count '\n' = 0 :=
          List.count_eq_zero.2 fun hmem => hslice (List.mem_append_left _ hmem)
        rw [hencloses.endLine, hencloses.line, hcount, Nat.add_zero]
      have hmore := ih hrest' (standsIn_of_run hfirst hstands) hothers
      rw [List.cons_append, List.cons_append, List.append_assoc]
      exact .start hstart (.parts hparts (hline ▸ .stop hstop hmore))

/-! ## Within a string -/

/-- A string is opened by its quotes, and otherwise it was open before and has not ended. -/
theorem Effect.mode_eq_string {n : Nat} {style : QuoteStyle} (he : Effect table s t piece?)
    (hstacked : Stacked n s.modes) (hmode : t.mode = .string style) :
    (s.mode = .string style ∧ ∀ piece ∈ piece?, piece.kind ≠ .stringEnd) ∨
      ∃ piece ∈ piece?, ∃ raw, piece.kind = .stringStart style raw := by
  obtain ⟨raw, line, column, outer, hmodes⟩ := exists_of_mode_eq_string hmode
  have hbelow (n : Nat) : Activation.string style raw line column :: outer ≠
      List.replicate n .block := by
    cases n <;> intro hnil <;> cases hnil
  have hstill (hsame : t.modes = s.modes) : s.mode = .string style := by
    rw [mode, ← hsame]
    exact hmode
  cases he with
  | still hquiet hsame =>
    refine .inl ⟨hstill hsame, fun piece hpiece hend => ?_⟩
    have hfalse := hquiet piece hpiece
    rw [hend] at hfalse
    cases hfalse
  | membersBegin _ hkind hsame | named hkind _ _ hsame | term hkind _ _ hsame =>
    refine .inl ⟨hstill hsame, ?_⟩
    rintro _ ⟨⟩ hend
    cases hkind.symm.trans hend
  | blockOpens _ _ _ _ _ hsame | expressionOpens _ _ _ hsame | bracketTurns _ _ _ hsame
  | bodyOpens _ hsame =>
    cases hsame.symm.trans hmodes
  | blockCloses _ _ hsame =>
    rw [hsame, hmodes] at hstacked
    exact absurd hstacked.of_block (hbelow _)
  | expressionCloses _ _ hsame =>
    rw [hsame, hmodes] at hstacked
    exact absurd hstacked.of_expression.2 (hbelow _)
  | bodyCloses _ hsame =>
    rw [hsame, hmodes] at hstacked
    exact absurd hstacked.of_body.2 (hbelow _)
  | stringCloses _ hsame =>
    rw [hsame, hmodes] at hstacked
    obtain ⟨_, _, houter⟩ := hstacked.of_string
    cases houter
  | stringOpens hkind _ hsame =>
    right
    obtain ⟨hstring, -⟩ := List.cons.inj (hsame.symm.trans hmodes)
    cases hstring
    exact ⟨_, rfl, _, hkind⟩

/-- As long as its parts are yielded, a string stays open. -/
theorem mode_of_isPart {style : QuoteStyle} (hs : s.isDone = false)
    (hstep : s.step table = (t, some (.ok piece))) (hpart : piece.kind.IsPart)
    (hmode : s.mode = .string style) : t.mode = .string style := by
  obtain ⟨raw, line, column, outer, hmodes⟩ := exists_of_mode_eq_string hmode
  have hrun : Run table s [piece] t :=
    .piece hs hstep (.other (hpart.ne_token _) hpart.ne_stringEnd) (.refl t)
  exact mode_eq_string (hrun.modes_of_parts (by simpa using hpart) hmodes)

end Scan

namespace KeepsLine

open Scan

variable {table : LineTable} {s t u v : Scan} {pieces : List Piece} {piece : Piece}
  {piece? : Option Piece} {line : Nat} {style : QuoteStyle}

/-- A string that is open ends on its line. -/
theorem exists_stop (h : KeepsLine (some line) pieces) :
    ∃ parts stop more, pieces = parts ++ stop :: more ∧ (∀ part ∈ parts, part.kind.IsPart) ∧
      stop.kind = .stringEnd ∧ stop.span.line = line := by
  generalize hopen : some line = line? at h
  induction h with
  | nil | token | start => cases hopen
  | part hpart _ ih =>
    obtain ⟨parts, stop, more, rfl, hparts, hstop⟩ := ih hopen
    exact ⟨_ :: parts, stop, more, rfl, List.forall_mem_cons.2 ⟨hpart, hparts⟩, hstop⟩
  | @stop piece more hkind _ _ =>
    obtain rfl := Option.some.inj hopen
    exact ⟨[], piece, more, rfl, by simp, hkind, rfl⟩

/-- A scan is not behind the line on which the string ends that is open. -/
theorem line_le (hrun : Run table s pieces u) (h : KeepsLine (some line) pieces) :
    s.position.line ≤ line := by
  obtain ⟨parts, stop, more, rfl, -, hstop, rfl⟩ := h.exists_stop
  obtain ⟨m, hparts, hrest⟩ := Run.split hrun
  obtain ⟨m', t, v, hquiet, -, hstep, -, -⟩ := Run.uncons hrest
  obtain ⟨_, _, hcuts, -⟩ := exists_cuts_of_step hstep (by simp [hstop])
  rw [hcuts.span]
  exact Nat.le_trans (line_le_of_run hparts) (line_le_of_run hquiet)

/-- A step within a string stays on its line. -/
theorem line_eq (hmode : s.mode = .string style)
    (hstep : s.step table = (t, piece?.map Except.ok)) (hposition : v.position = t.position)
    (hrun : Run table v pieces u) (h : KeepsLine s.openLine (piece?.toList ++ pieces)) :
    t.position.line = s.position.line := by
  have hle := line_le_of_step piece? hstep
  rw [openLine_of_string hmode] at h
  cases piece? with
  | none =>
    have hnext := line_le hrun h
    rw [hposition] at hnext
    omega
  | some piece =>
    generalize hopen : some s.position.line = line? at h
    cases h with
    | token | start => cases hopen
    | part _ hmore =>
      obtain rfl := Option.some.inj hopen
      have hnext := line_le hrun hmore
      rw [hposition] at hnext
      omega
    | stop hkind _ =>
      obtain ⟨lexeme, more, hcuts, hmoved⟩ := exists_cuts_of_step hstep (by simp [hkind])
      obtain ⟨rfl, rfl⟩ := eq_quotes_of_cuts hcuts hkind hmode
      rw [hmoved, Position.line_after, List.append_nil,
        List.count_eq_zero.2 (style.not_mem_quotes Lexeme.isStop_lineFeed), Nat.add_zero]

/-- A step behind which a string is open stays on its line, too. -/
theorem line_eq_behind (hs : s.isDone = false) (hstacked : Stacked s.blocks.length s.modes)
    (hrest : s.rest ≠ []) (hmode : t.mode = .string style)
    (hstep : s.step table = (t, piece?.map Except.ok)) (hposition : v.position = t.position)
    (hrun : Run table v pieces u) (h : KeepsLine s.openLine (piece?.toList ++ pieces)) :
    t.position.line = s.position.line := by
  rcases (effect_of_rest piece? hs hrest hstep).mode_eq_string hstacked hmode with
    ⟨hsame, -⟩ | ⟨piece, rfl, raw, hkind⟩
  · exact h.line_eq hsame hstep hposition hrun
  · obtain ⟨lexeme, more, hcuts, hmoved⟩ := exists_cuts_of_step hstep (by simp [hkind])
    obtain ⟨rfl, letter, hletter, rfl, -⟩ := exists_letter_of_cuts hcuts hkind
    have hfree : '\n' ∉ letter ++ style.quotes ++ [] := by
      rw [List.append_nil, List.mem_append, not_or]
      exact ⟨hletter.lineFeed_not_mem, (style.not_mem_quotes Lexeme.isStop_lineFeed)⟩
    rw [hmoved, Position.line_after, List.count_eq_zero.2 hfree, Nat.add_zero]

/-- Within a string, and where one is opened, no end of a line is taken. -/
theorem lineFeed_not_mem {rule : Rule} {m : Match} (hs : s.isDone = false)
    (hstacked : Stacked s.blocks.length s.modes)
    (hmode : s.mode = .string style ∨ t.mode = .string style)
    (hselect : s.mode.select s.rest = some (rule, m))
    (hstep : s.step table = (t, piece?.map Except.ok)) (hposition : v.position = t.position)
    (hrun : Run table v pieces u) (h : KeepsLine s.openLine (piece?.toList ++ pieces)) :
    '\n' ∉ m.lexeme := by
  have hrest := Mode.ne_nil_of_select hselect
  have hline : t.position.line = s.position.line := by
    rcases hmode with hmode | hmode
    · exact h.line_eq hmode hstep hposition hrun
    · exact h.line_eq_behind hs hstacked hrest hmode hstep hposition hrun
  rcases exists_of_step piece? hstep with ⟨hnil, -⟩ | ⟨rule', m', a, left, hselect', -, -, -, -,
    hmoved⟩
  · exact absurd hnil hrest
  · obtain ⟨rfl, rfl⟩ := Prod.mk.inj (Option.some.inj (hselect.symm.trans hselect'))
    rw [hmoved, Position.line_after] at hline
    exact List.count_eq_zero.1 (by omega)

/-- Behind a step a string is open.  It was open before, or has just been opened. -/
theorem step_of_string (hs : s.isDone = false) (hstacked : Stacked s.blocks.length s.modes)
    (hrest : s.rest ≠ []) (hmode : t.mode = .string style)
    (hstep : s.step table = (t, piece?.map Except.ok)) (hposition : v.position = t.position)
    (hrun : Run table v pieces u) (h : KeepsLine s.openLine (piece?.toList ++ pieces)) :
    KeepsLine (some t.position.line) pieces := by
  have hline := h.line_eq_behind hs hstacked hrest hmode hstep hposition hrun
  rw [hline]
  rcases (effect_of_rest piece? hs hrest hstep).mode_eq_string hstacked hmode with
    ⟨hsame, hnot⟩ | ⟨piece, rfl, raw, hkind⟩
  · rw [openLine_of_string hsame] at h
    cases piece? with
    | none => exact h
    | some piece =>
      generalize hopen : some s.position.line = line? at h ⊢
      cases h with
      | part _ hmore => exact hmore
      | stop hkind => exact absurd hkind (hnot _ rfl)
      | token | start => cases hopen
  · obtain ⟨lexeme, more, hcuts, -⟩ := exists_cuts_of_step hstep (by simp [hkind])
    generalize s.openLine = line? at h
    cases h with
    | start _ hmore =>
      rw [hcuts.span] at hmore
      exact hmore
    | token hother | stop hother => cases hother.symm.trans hkind
    | part hpart =>
      rw [hkind] at hpart
      cases hpart

/-- Behind a step no string is open.  None was open before, or it has just ended. -/
theorem step_of_not_string (hs : s.isDone = false) (hmode : ∀ style, t.mode ≠ .string style)
    (hstep : s.step table = (t, piece?.map Except.ok))
    (h : KeepsLine s.openLine (piece?.toList ++ pieces)) : KeepsLine none pieces := by
  generalize hopen : s.openLine = line? at h
  cases piece? with
  | none =>
    have hclosed : s.openLine = none := by
      refine openLine_eq_none fun style hstring => hmode style ?_
      cases (effect_of_step_quiet hstep).1 with
      | still _ hsame =>
        rw [mode, hsame]
        exact hstring
      | bodyOpens hblock => cases hblock.symm.trans hstring
    rw [hclosed] at hopen
    exact hopen ▸ h
  | some piece =>
    cases h with
    | token _ hmore | stop _ hmore => exact hmore
    | @start _ style _ _ hkind =>
      have hopened := mode_of_parts hs hstep hkind (.other (by simp [hkind]) (by simp [hkind]))
        (.refl t) (by simp)
      exact absurd hopened (hmode style)
    | part hpart =>
      obtain ⟨style, hstring⟩ := exists_of_openLine hopen
      exact absurd (mode_of_isPart hs hstep hpart hstring) (hmode style)

/-- Behind a step the strings that are still to come keep their lines. -/
theorem step (piece? : Option Piece) (hs : s.isDone = false)
    (hstacked : Stacked s.blocks.length s.modes) (hrest : s.rest ≠ [])
    (hstep : s.step table = (t, piece?.map Except.ok)) (hposition : v.position = t.position)
    (hmodes : v.modes = t.modes) (hrun : Run table v pieces u)
    (h : KeepsLine s.openLine (piece?.toList ++ pieces)) : KeepsLine v.openLine pieces := by
  have hopenLine : v.openLine = t.openLine := by
    unfold openLine mode
    rw [hmodes, hposition]
  rw [hopenLine]
  by_cases hstring : ∃ style, t.mode = .string style
  · obtain ⟨style, hmode⟩ := hstring
    rw [openLine_of_string hmode]
    exact h.step_of_string hs hstacked hrest hmode hstep hposition hrun
  · have hmode : ∀ style, t.mode ≠ .string style := fun style hmode => hstring ⟨style, hmode⟩
    rw [openLine_eq_none hmode]
    exact h.step_of_not_string hs hmode hstep

end KeepsLine

end BlockLexer
