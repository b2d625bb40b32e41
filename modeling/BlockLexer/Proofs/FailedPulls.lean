import BlockLexer.Proofs.Extent
import BlockLexer.Proofs.FaultPlaces

/-!
# Pulls that fail

A pull takes steps until a token is complete and has been checked, and it may fail on the way.
This module says how many blocks are open then: as many as before the pull, unless it comes to an
`end` that stands in another column than the header of its block.  This `end` is refused, and takes
the frame of its block away nevertheless.

* `Fault.IsMisalignedEnd` is the fault of such an `end`, and `Fault.Leaves` is what a fault leaves
  of the open blocks.
* `Scan.leaves_of_step` is a step that fails.
* `Scan.Breaks` are the ways in which a pull fails, and `Stream.breaks_of_next` says that there are
  no others.  `IsLevel` is what has been read then.
* `Scan.Breaks.leaves` is what each of these ways leaves of the open blocks.
* `Lexer.openBlocks_of_failed_pull` counts the open blocks of a lexer in front of such a pull and
  behind it.
-/

namespace BlockLexer

open Text

variable {table : LineTable} {text : List Char} {fault : Fault}

/-! ## Ends in the wrong column -/

/-- The cause of a line in the wrong column. -/
def Cause.IsMisaligned : Cause → Prop
  | misaligned _ _ => True
  | _ => False

/-- A fault in the wrong column, where the rule that ends a block takes the next characters. -/
structure Fault.IsMisalignedEnd (text : List Char) (fault : Fault) : Prop where
  cause : fault.cause.IsMisaligned
  place : ∃ before behind m, text = before ++ behind ∧ fault.line = lineBehind before ∧
    fault.column = columnBehind before ∧ Mode.block.select behind = some (.blockEnd, m)

/-- The number of blocks that are open in front of a fault and behind it. -/
structure Fault.Leaves (text : List Char) (fault : Fault) (before after : Nat) : Prop where
  misaligned : fault.IsMisalignedEnd text → after + 1 = before
  other : ¬ fault.IsMisalignedEnd text → after = before

theorem Fault.Leaves.of_cause {n : Nat} (hcause : ¬ fault.cause.IsMisaligned) :
    fault.Leaves text n n :=
  ⟨fun hend => absurd hend.cause hcause, fun _ => rfl⟩

namespace Scan

variable {s t u a : Scan} {m : Match} {piece : Piece} {pieces before : List Piece}

/-- A fault at the place of a scan is one of an `end` if the scan could select its rule. -/
theorem StandsIn.isMisalignedEnd_iff (h : StandsIn text s) (hline : fault.line = s.position.line)
    (hcolumn : fault.column = s.position.column) :
    fault.IsMisalignedEnd text ↔
      fault.cause.IsMisaligned ∧ ∃ m, Mode.block.select s.rest = some (.blockEnd, m) := by
  obtain ⟨passed, htext, hposition⟩ := h
  rw [hposition, Position.line_eq] at hline
  rw [hposition, Position.column_eq] at hcolumn
  constructor
  · rintro ⟨hcause, before, behind, m, htext', hline', hcolumn', hselect⟩
    obtain ⟨-, rfl⟩ := eq_of_place (htext.symm.trans htext') (hline.symm.trans hline')
      (hcolumn.symm.trans hcolumn')
    exact ⟨hcause, m, hselect⟩
  · rintro ⟨hcause, m, hselect⟩
    exact ⟨hcause, passed, s.rest, m, htext, hline, hcolumn, hselect⟩

/-! ## Steps that fail -/

/-- An `end` that is refused for its column takes the frame of its block away. -/
theorem blocks_of_closeBlock_error (h : s.closeBlock table m = (a, .error fault)) :
    (a.blocks = s.blocks ∧ ¬ fault.cause.IsMisaligned) ∨
      fault.cause.IsMisaligned ∧ ∃ frame, s.blocks = frame :: a.blocks := by
  unfold closeBlock at h
  split at h
  · cases h
    exact .inl ⟨rfl, id⟩
  dsimp only at h
  split at h
  · next cause hclose =>
    cases h
    cases hblocks : s.blocks with
    | nil =>
      rw [hblocks] at hclose
      cases hclose
      exact .inl ⟨rfl, id⟩
    | cons frame outer =>
      rw [hblocks] at hclose
      simp only [BlockStack.close] at hclose
      split at hclose <;> cases hclose
      exact .inr ⟨trivial, frame, rfl⟩
  · cases h

/-- Only members and ends are refused for their column. -/
theorem Refuses.of_isMisaligned {rule : Rule} {cause : Cause} (h : s.Refuses table m rule cause)
    (hcause : cause.IsMisaligned) : s.mode = .block ∨ rule = .blockEnd := by
  cases h with
  | member hmode => exact .inl hmode
  | close | endName => exact .inr rfl
  | strayEnd | name | attributeName | imaginary | float | integer | identifier | bracket
  | noExpression => exact hcause.elim

/-- No column is wrong at the end of a text, or where a scan is stuck. -/
theorem not_isMisaligned_of_finish (h : s.finish table = .error fault) :
    ¬ fault.cause.IsMisaligned := by
  unfold finish at h
  repeat' split at h
  all_goals cases h
  all_goals exact id

theorem not_isMisaligned_stuck (s : Scan) (c : Char) : ¬ (s.stuck c).cause.IsMisaligned := by
  unfold stuck
  repeat' split
  all_goals exact id

/-- A step that fails leaves the blocks open that were so, but for that of a misaligned `end`. -/
theorem leaves_of_step (h : StandsIn text s) (hstep : s.step table = (t, some (.error fault))) :
    fault.Leaves text s.blocks.length t.blocks.length := by
  rcases cases_of_step_error hstep with ⟨-, hfinish, rfl⟩ | ⟨c, -, -, -, rfl, rfl⟩ |
    ⟨rule, m, a, hselect, hact, rfl⟩
  · exact .of_cause (not_isMisaligned_of_finish hfinish)
  · exact .of_cause (not_isMisaligned_stuck s c)
  obtain ⟨hsame, cause, hrefuses, rfl⟩ := refuses_of_act hact
  have hend : (s.fault cause).IsMisalignedEnd text ↔ (s.fault cause).cause.IsMisaligned ∧
      ∃ m, Mode.block.select s.rest = some (.blockEnd, m) := h.isMisalignedEnd_iff rfl rfl
  show (s.fault cause).Leaves text s.blocks.length a.blocks.length
  by_cases hrule : rule = .blockEnd
  · subst hrule
    have hmode : s.mode = .block := Mode.eq_of_mem_rules (mem_rules_of_select hselect) rfl
    rw [hmode] at hselect
    rcases blocks_of_closeBlock_error hact with ⟨hblocks, hcause⟩ | ⟨hcause, frame, hframe⟩
    · rw [hblocks]
      exact .of_cause hcause
    · refine ⟨fun _ => (congrArg List.length hframe).symm, fun hnot => absurd ?_ hnot⟩
      exact hend.2 ⟨hcause, m, hselect⟩
  · rw [hsame hrule]
    refine ⟨fun hmisaligned => ?_, fun _ => rfl⟩
    -- In a block the rule that ends it would have been selected.
    obtain ⟨hcause, m', hselect'⟩ := hend.1 hmisaligned
    have hmode : s.mode = .block := (hrefuses.of_isMisaligned hcause).resolve_right hrule
    rw [hmode, hselect'] at hselect
    cases hselect
    exact absurd rfl hrule

end Scan

/-! ## Pieces that open and close nothing -/

/-- Nothing that belongs to the structure of a text is among some pieces. -/
def IsLevel (pieces : List Piece) : Prop :=
  ∀ kind ∈ emitted pieces, kind.category ≠ .structural

theorem isLevel_append {pieces more : List Piece} :
    IsLevel (pieces ++ more) ↔ IsLevel pieces ∧ IsLevel more := by
  unfold IsLevel
  rw [emitted_append]
  exact List.forall_mem_append

theorem IsLevel.of_emitted {pieces : List Piece} (h : emitted pieces = []) : IsLevel pieces := by
  unfold IsLevel
  simp [h]

/-- The parts of a string and its quotes are no tokens of their own. -/
theorem IsLevel.of_ne_token {piece : Piece} (h : ∀ kind, piece.kind ≠ .token kind) :
    IsLevel [piece] := by
  cases hkind : piece.kind with
  | token kind => exact absurd hkind (h kind)
  | stringEnd =>
    unfold IsLevel
    rw [emitted_singleton_stringEnd hkind]
    decide
  | stringStart | stringText | stringEscape | stringLineBreak =>
    exact .of_emitted (emitted_singleton_none (by rw [hkind]; rfl))

theorem IsLevel.of_isPart {pieces : List Piece} (h : ∀ part ∈ pieces, part.kind.IsPart) :
    IsLevel pieces :=
  .of_emitted (List.filterMap_eq_nil_iff.2 fun part hpart => (h part hpart).notedKind?)

theorem IsLevel.ne {pieces : List Piece} (h : IsLevel pieces) {kind : Kind}
    (hkind : kind.category = .structural) : kind ∉ emitted pieces :=
  fun hmem => h kind hmem hkind

/-- Behind such a piece the later stages leave the blocks alone. -/
theorem IsLevel.exists_settles {piece : Piece} (h : IsLevel [piece]) (table : LineTable)
    (s : Scan) : ∃ t, Scan.Settles table piece s t ∧ t.blocks = s.blocks := by
  have hkind : piece.kind ≠ .token .attributeName := by
    intro hkind
    have hmem : Kind.attributeName ∈ emitted [piece] := by
      rw [emitted_singleton hkind rfl]
      exact List.mem_singleton_self _
    exact h.ne rfl hmem
  by_cases hstring : piece.kind = .stringEnd
  · exact ⟨_, .string (.stringJoined 0 0) hstring, rfl⟩
  · exact ⟨s, .other hkind hstring, rfl⟩

namespace Scan

variable {s t u v : Scan} {piece : Piece} {pieces before : List Piece}

/-- Behind pieces without a header and an `end` as many blocks are open as in front of them. -/
theorem Nested.length_eq (h : Nested table before s) (h' : Nested table (before ++ pieces) t)
    (hlevel : .className ∉ emitted pieces ∧ .blockEnd ∉ emitted pieces) :
    t.blocks.length = s.blocks.length := by
  have hcount := h.count
  have hcount' := h'.count
  rw [emitted_append, List.count_append, List.count_append, List.count_eq_zero.2 hlevel.1,
    List.count_eq_zero.2 hlevel.2] at hcount'
  omega

/-- In a string nothing is read that belongs to the structure of a text. -/
theorem isLevel_of_string {style : QuoteStyle} (hs : s.isDone = false)
    (hmode : s.mode = .string style) (hstep : s.step table = (t, some (.ok piece))) :
    IsLevel [piece] := by
  have elsewhere {p : Prop} (hother : s.mode = .default ∨ s.mode = .block) : p := by
    rcases hother with hother | hother <;> cases hother.symm.trans hmode
  rcases effect_of_step hs hstep with ⟨hmodes, -, -⟩ | ⟨-, he, -⟩
  · rw [mode, hmodes] at hmode
    cases hmode
  cases he with
  | still hquiet => exact .of_emitted (emitted_of_quiet hquiet)
  | membersBegin _ hkind | expressionCloses hkind =>
    exact .of_emitted (emitted_singleton_filtered hkind rfl)
  | stringOpens hkind | stringCloses hkind => exact .of_ne_token (by simp [hkind])
  | named _ _ hother | blockOpens _ _ _ hother => exact elsewhere hother
  | expressionOpens _ _ hother => exact elsewhere (.inr hother)
  | blockCloses _ _ hmodes | bodyCloses _ hmodes =>
    rw [mode, hmodes] at hmode
    cases hmode
  | term hkind hterm =>
    unfold IsLevel
    rw [emitted_singleton hkind hterm.isFiltered]
    simpa using hterm.1
  | bracketTurns hkind hturns =>
    unfold IsLevel
    rw [emitted_singleton hkind hturns.isFiltered]
    simp [hturns.category]

/-! ## Ways to fail -/

/-- The ways in which a pull fails.  What it has read before opens and closes nothing. -/
inductive Breaks (table : LineTable) (s : Scan) (fault : Fault) (t : Scan) : Prop
  /-- A step fails, and no later stage has a part in it. -/
  | step {pieces : List Piece} {u : Scan} (hrun : Run table s pieces u) (hlevel : IsLevel pieces)
      (hstep : u.step table = (t, some (.error fault))) : Breaks table s fault t
  /-- A later stage refuses a string or a token for another reason than its column. -/
  | late {pieces : List Piece} {u : Scan} (hrun : Run table s pieces u) (hlevel : IsLevel pieces)
      (hblocks : t.blocks = u.blocks) (hcause : ¬ fault.cause.IsMisaligned) :
      Breaks table s fault t
  /-- The name of an attribute, which is checked when it has been read. -/
  | member {pieces : List Piece} {u : Scan} {name : Piece} (hrun : Run table s pieces u)
      (hlevel : IsLevel pieces) (hu : u.isDone = false)
      (hstep : u.step table = (t, some (.ok name))) (hkind : name.kind = .token .attributeName)
      (hline : fault.line = name.span.line) (hcolumn : fault.column = name.span.column) :
      Breaks table s fault t

theorem Breaks.of_run (hrun : Run table s pieces u) (hlevel : IsLevel pieces)
    (h : Breaks table u fault t) : Breaks table s fault t := by
  cases h with
  | step hrun' hlevel' hstep =>
    exact .step (hrun.trans hrun') (isLevel_append.2 ⟨hlevel, hlevel'⟩) hstep
  | late hrun' hlevel' hblocks hcause =>
    exact .late (hrun.trans hrun') (isLevel_append.2 ⟨hlevel, hlevel'⟩) hblocks hcause
  | member hrun' hlevel' hu hstep hkind hline hcolumn =>
    exact .member (hrun.trans hrun') (isLevel_append.2 ⟨hlevel, hlevel'⟩) hu hstep hkind hline
      hcolumn

/-- A scan reads the name of an attribute where it stands in a block, by the rule for it. -/
theorem select_of_attributeName (hs : s.isDone = false)
    (hstep : s.step table = (t, some (.ok piece))) (hkind : piece.kind = .token .attributeName) :
    piece.span.line = s.position.line ∧ piece.span.column = s.position.column ∧
      ∃ m, Mode.block.select s.rest = some (.attributeName, m) := by
  obtain ⟨lexeme, more, hcuts, -⟩ := exists_cuts_of_step hstep (by simp [hkind])
  obtain ⟨hmode, hmodes, -⟩ := assigns_of_step hs hstep hkind
  refine ⟨congrArg Span.line hcuts.span, congrArg Span.column hcuts.span, ?_⟩
  rcases exists_of_step (some piece) hstep with ⟨-, rfl, -⟩ |
    ⟨rule, m, a, left, hselect, -, hact, -⟩
  · exact absurd hmodes.symm (List.cons_ne_self _ _)
  have hmem := mem_rules_of_select hselect
  rw [hmode] at hmem hselect
  obtain rfl := eq_attributeName_of_act hmem hact hkind
  exact ⟨m, hselect⟩

/-- However a pull fails, the blocks stay open that were so, but for that of a misaligned `end`. -/
theorem Breaks.leaves (h : Breaks table s fault t) (hstands : StandsIn text s)
    (hnested : Nested table before s) :
    fault.Leaves text s.blocks.length t.blocks.length := by
  have hlength {pieces : List Piece} {u : Scan} (hrun : Run table s pieces u)
      (hlevel : IsLevel pieces) : u.blocks.length = s.blocks.length :=
    hnested.length_eq (nested_of_run hrun hnested) ⟨hlevel.ne rfl, hlevel.ne rfl⟩
  cases h with
  | step hrun hlevel hstep =>
    rw [← hlength hrun hlevel]
    exact leaves_of_step (standsIn_of_run hrun hstands) hstep
  | late hrun hlevel hblocks hcause =>
    rw [hblocks, hlength hrun hlevel]
    exact .of_cause hcause
  | @member pieces u name hrun hlevel hu hstep hkind hline hcolumn =>
    obtain ⟨hnameLine, hnameColumn, m, hselect⟩ := select_of_attributeName hu hstep hkind
    have hu' := nested_of_run hrun hnested
    have hsame : t.blocks.length = u.blocks.length := by
      refine hu'.length_eq (nested_of_step hu' hu hstep) ?_
      rw [emitted_singleton hkind rfl]
      decide
    rw [hsame, hlength hrun hlevel]
    refine ⟨fun hmisaligned => ?_, fun _ => rfl⟩
    obtain ⟨-, m', hselect'⟩ := ((standsIn_of_run hrun hstands).isMisalignedEnd_iff
      (hline.trans hnameLine) (hcolumn.trans hnameColumn)).1 hmisaligned
    cases hselect.symm.trans hselect'

/-! ## Pulls -/

theorem breaks_of_next (h : s.next table = (t, some (.error fault))) : Breaks table s fault t := by
  obtain ⟨u, hrun, -, hstep⟩ := run_of_next h
  exact .step hrun (.of_emitted rfl) hstep

/-- A piece that is refused for another reason than its column. -/
theorem breaks_of_piece (hrun : Run table s pieces u) (hlevel : IsLevel pieces)
    (hu : u.isDone = false) (hstep : u.step table = (t, some (.ok piece)))
    (hpiece : IsLevel [piece]) (hblocks : v.blocks = t.blocks)
    (hcause : ¬ fault.cause.IsMisaligned) : Breaks table s fault v := by
  obtain ⟨w, hsettles, hsettled⟩ := hpiece.exists_settles table t
  exact .late (hrun.snoc hu hstep hsettles) (isLevel_append.2 ⟨hlevel, hpiece⟩)
    (hblocks.trans hsettled.symm) hcause

end Scan

namespace Assembly

variable {a a' : Assembly} {s t u : Scan} {start piece : Piece} {pieces : List Piece}

open Scan (Run Breaks)

/-- A string that is not complete. -/
theorem breaks_of_parts {style : QuoteStyle} {raw : Bool} {line column : Nat}
    {outer : List Activation} {afterBreak : Bool}
    (hmodes : s.modes = .string style raw line column :: outer)
    (h : parts table start afterBreak s = (t, .error fault)) : Breaks table s fault t := by
  fun_induction parts table start afterBreak s generalizing fault with
  | case1 _ s s' hpull =>
    obtain ⟨rfl, hfault⟩ := Prod.mk.inj h
    obtain rfl := Except.error.inj hfault
    exact .late (Scan.run_of_next_none hpull).1 (.of_emitted rfl) rfl id
  | case2 _ s s' fault' hpull =>
    obtain ⟨rfl, hfault⟩ := Prod.mk.inj h
    obtain rfl := Except.error.inj hfault
    exact Scan.breaks_of_next hpull
  | case3 _ s s' piece hpull hkind last rest hrec ih
  | case4 _ s s' piece hpull hkind last rest hrec ih
  | case5 _ s s' piece hpull hkind last rest hrec ih =>
    obtain ⟨rfl, hrest⟩ := Prod.mk.inj h
    obtain ⟨u, hrun, hu, hstep⟩ := Scan.run_of_next hpull
    have hpart : piece.kind.IsPart := by
      rw [hkind]
      trivial
    have hrun' : Run table s [piece] s' :=
      hrun.snoc hu hstep (.other (hpart.ne_token _) hpart.ne_stringEnd)
    refine .of_run hrun' (.of_ne_token hpart.ne_token) ?_
    exact ih (hrun'.modes_of_parts (by simpa using hpart) hmodes)
      (by rw [hrec, eq_error_of_map_eq_error hrest])
  | case6 => cases (Prod.mk.inj h).2
  | case7 _ s s' piece hpull | case8 _ s s' piece hpull =>
    obtain ⟨rfl, hfault⟩ := Prod.mk.inj h
    obtain rfl := Except.error.inj hfault
    obtain ⟨u, hrun, hu, hstep⟩ := Scan.run_of_next hpull
    have hmode := Scan.mode_eq_string (hrun.modes_of_parts (by simp) hmodes)
    exact Scan.breaks_of_piece hrun (.of_emitted rfl) hu hstep
      (Scan.isLevel_of_string hu hmode hstep) rfl id

/-- The cause for which a string is refused that is complete. -/
theorem not_isMisaligned_of_literal {style : QuoteStyle} {stop : Piece} {text : List Char}
    (h : literal style start stop text = .error fault) : ¬ fault.cause.IsMisaligned := by
  unfold literal at h
  split at h
  · next cause hletter =>
    obtain rfl := Except.error.inj h
    unfold applyLetter at hletter
    repeat' split at hletter
    all_goals cases hletter
    all_goals exact id
  · cases h

/-- A piece that no token begins with, or the beginning of a string that fails. -/
theorem breaks_of_tokenOf (hs : s.isDone = false) (hstep : s.step table = (t, some (.ok piece)))
    (h : tokenOf table piece t = (u, .error fault)) : Breaks table s fault u := by
  unfold tokenOf at h
  split at h
  · cases (Prod.mk.inj h).2
  · next style raw hkind =>
    obtain ⟨-, line, column, hmodes⟩ := Scan.modes_of_stringStart hs hstep hkind
    have hrun : Run table s [piece] t :=
      .piece hs hstep (.other (by simp [hkind]) (by simp [hkind])) (.refl t)
    refine .of_run hrun (.of_ne_token (by simp [hkind])) ?_
    split at h
    · next hparts =>
      obtain ⟨rfl, hfault⟩ := Prod.mk.inj h
      obtain rfl := Except.error.inj hfault
      exact breaks_of_parts hmodes hparts
    next hparts =>
    split at h
    · next hliteral =>
      obtain ⟨rfl, hfault⟩ := Prod.mk.inj h
      obtain rfl := Except.error.inj hfault
      obtain ⟨parts, v, hrun', hparts', -, hv, hstop, hkind'⟩ := run_of_parts hparts
      exact Scan.breaks_of_piece hrun' (.of_isPart hparts') hv hstop
        (.of_ne_token (by simp [hkind'])) rfl (not_isMisaligned_of_literal hliteral)
    · cases (Prod.mk.inj h).2
  all_goals
    next hkind =>
    obtain ⟨rfl, hfault⟩ := Prod.mk.inj h
    obtain rfl := Except.error.inj hfault
    exact Scan.breaks_of_piece (.refl s) (.of_emitted rfl) hs hstep
      (.of_ne_token (by simp [hkind])) rfl id

theorem breaks_of_next (h : a.next table = (a', some (.error fault))) :
    Breaks table a.scan fault a'.scan := by
  unfold next at h
  split at h
  · cases h
  split at h
  · cases h
  · next hpull =>
    obtain ⟨rfl, hfault⟩ := Prod.mk.inj h
    obtain rfl := Except.error.inj (Option.some.inj hfault)
    exact Scan.breaks_of_next hpull
  next hpull =>
  split at h
  · cases h
  · next htoken =>
    obtain ⟨rfl, hfault⟩ := Prod.mk.inj h
    obtain rfl := Except.error.inj (Option.some.inj hfault)
    obtain ⟨u, hrun, hu, hstep⟩ := Scan.run_of_next hpull
    exact .of_run hrun (.of_emitted rfl) (breaks_of_tokenOf hu hstep htoken)

end Assembly

namespace Stream

variable {s s' : Stream} {assembly : Assembly} {token : Token}

open Scan (Run Breaks)

/-- A token that is refused because of the token in front of it, or an attribute in the wrong
column. -/
theorem breaks_of_check {blocks : BlockStack}
    (hpull : s.assembly.next table = (assembly, some (.ok token)))
    (hkept : token.kind.isFiltered = false)
    (h : check table s.previous blocks token = .error fault) :
    Breaks table s.assembly.scan fault assembly.scan := by
  obtain ⟨pieces, u, piece, t, hrun, hmakes, hu, hstep, hstands, hscan, hevent, -⟩ :=
    Assembly.run_of_next hpull
  have hemitted : [token.kind] = emitted (pieces ++ [piece]) :=
    (hmakes.delivered_of_kept hkept).map_kind
  rcases check_eq_error h with ⟨clash, kind, hclash, rfl⟩ | ⟨hkind, cause, rfl⟩
  · have hlevel : IsLevel (pieces ++ [piece]) := by
      unfold IsLevel
      rw [← hemitted]
      simpa using ne_structural_of_clash hclash
    obtain ⟨hpieces, hpiece⟩ := isLevel_append.1 hlevel
    refine Scan.breaks_of_piece hrun hpieces hu hstep hpiece ?_ id
    by_cases hstring : piece.kind = .stringEnd
    · obtain ⟨event, hreport⟩ := hevent hstring
      rw [hreport]
      rfl
    · rw [hscan hstring]
  · cases hstands with
    | string _ hstring => cases hkind.symm.trans hstring
    | token hpiece _ hspan =>
      rw [hkind] at hpiece hemitted
      rw [emitted_append, emitted_singleton hpiece rfl] at hemitted
      have hnil : emitted pieces = [] :=
        List.append_cancel_right (hemitted.symm.trans (List.nil_append _).symm)
      rw [hscan (by simp [hpiece])]
      exact .member hrun (.of_emitted hnil) hu hstep hpiece (congrArg Span.line hspan)
        (congrArg Span.column hspan)

theorem breaks_of_next (hs : s.IsSound) (h : s.next table = (s', some (.error fault))) :
    Breaks table s.assembly.scan fault s'.assembly.scan := by
  fun_induction next table s with
  | case1 | case2 | case6 => cases (Prod.mk.inj h).2
  | case3 s hdone assembly fault' hpull =>
    obtain ⟨rfl, hfault⟩ := Prod.mk.inj h
    obtain rfl := Except.error.inj (Option.some.inj hfault)
    exact Assembly.breaks_of_next hpull
  | case4 s hdone assembly token hpull hfiltered ih =>
    obtain ⟨pieces, hrun, hassembled, hsame⟩ := run_of_filtered hs hpull hfiltered
    exact .of_run hrun (.of_emitted hassembled.delivered.map_kind.symm) (ih ⟨hs.stream, hsame⟩ h)
  | case5 s hdone assembly token hpull hkept fault' hcheck =>
    obtain ⟨rfl, hfault⟩ := Prod.mk.inj h
    obtain rfl := Except.error.inj (Option.some.inj hfault)
    exact breaks_of_check hpull (by simpa using hkept) hcheck

end Stream

namespace Lexer

/-- A pull that fails leaves as many blocks open as the tokens so far have headers without an end,
unless it comes to an `end` that stands in another column than the header of its block.  Then there
is one less. -/
theorem openBlocks_of_failed_pull {source : Source} {tokens : List Token} {lexer lexer' : Lexer}
    {fault : Fault} (hyields : stage.Yields (ofSource source) tokens lexer)
    (hnext : lexer.next = (lexer', some (.error fault))) :
    lexer.openBlocks + (tokens.map Token.kind).count .blockEnd =
        (tokens.map Token.kind).count .className ∧
      ∃ flat : Fault, fault = source.locate flat ∧
        (flat.IsMisalignedEnd source.text → lexer'.openBlocks + 1 = lexer.openBlocks) ∧
        (¬ flat.IsMisalignedEnd source.text → lexer'.openBlocks = lexer.openBlocks) := by
  obtain ⟨pieces, hrun, hdelivered, hsound, -⟩ := run_of_yields hyields
  obtain ⟨flat, hpull, hfault⟩ := next_eq_error hnext
  rw [(yields_iff.1 hyields).1] at hpull hfault
  have hnested := Scan.nested_of_run hrun (Scan.nested_of_start rfl rfl)
  have hstands : Scan.StandsIn source.text lexer.scan :=
    Scan.standsIn_of_run hrun (Scan.standsIn_of_start rfl rfl)
  have hleaves := (Stream.breaks_of_next hsound hpull).leaves hstands hnested
  rw [hdelivered.map_kind]
  exact ⟨hnested.count, flat, hfault, hleaves.misaligned, hleaves.other⟩

/-- Behind two literals in a row, the block is still open. -/
theorem openBlocks_of_clash :
    ∃ source tokens lexer lexer' fault,
      (Source.ofText ⟨[], []⟩ {} "A\n  b = 1 2\nend\n".toList textOrigin).outcome = .ok source ∧
      stage.Yields (ofSource source) tokens lexer ∧ lexer.next = (lexer', some (.error fault)) ∧
      fault.cause = .adjacency .literals .integer .integer ∧
      lexer'.openBlocks = lexer.openBlocks := by
  have hstate : (Source.ofText ⟨[], []⟩ {} "A\n  b = 1 2\nend\n".toList textOrigin).outcome.map
      (fun source => (Lexer.tokens source).map List.length) = .ok (.error
        { cause := .adjacency .literals .integer .integer, line := 2, column := 9 }) := by
    decide +kernel
  obtain ⟨source, hsource, hstate⟩ := exists_of_map_eq_ok hstate
  obtain ⟨tokens, lexer, lexer', hyields, hnext⟩ :=
    Stage.yields_of_collect_eq_error (eq_error_of_map_eq_error hstate)
  obtain ⟨-, flat, hflat, -, hsame⟩ := openBlocks_of_failed_pull hyields hnext
  refine ⟨source, tokens, lexer, lexer', _, hsource, hyields, hnext, rfl, hsame ?_⟩
  rintro ⟨hcause, -⟩
  rwa [← source.cause_locate, ← hflat] at hcause

/-- An `end` in the wrong column is refused.  Its block is no longer open then, though the scan is
still in it. -/
theorem openBlocks_of_indented_end :
    ∃ source tokens lexer lexer' fault,
      (Source.ofText ⟨[], []⟩ {} "A\n  end\n".toList textOrigin).outcome = .ok source ∧
      stage.Yields (ofSource source) tokens lexer ∧ lexer.next = (lexer', some (.error fault)) ∧
      lexer.openBlocks = 1 ∧ lexer'.openBlocks = 0 ∧ lexer'.scan.mode = .block := by
  have hstate : (Source.ofText ⟨[], []⟩ {} "A\n  end\n".toList textOrigin).outcome.map
      (fun source =>
        let first := (ofSource source).next
        let second := first.1.next
        (first.2, second.2, first.1.openBlocks, second.1.openBlocks, second.1.scan.mode)) = .ok
      (some (.ok { kind := .className, value := .text ['A'], span := ⟨0, 1, 1, 1⟩ }),
        some (.error { cause := .misaligned 0 2, line := 2, column := 3 }), 1, 0, .block) := by
    decide +kernel
  obtain ⟨source, hsource, hstate⟩ := exists_of_map_eq_ok hstate
  simp only [Prod.mk.injEq] at hstate
  obtain ⟨hfirst, hsecond, hopen, hclosed, hmode⟩ := hstate
  exact ⟨source, _, (ofSource source).next.1, _, _, hsource,
    .pull (Prod.ext rfl hfirst) (.none _), Prod.ext rfl hsecond, hopen, hclosed, hmode⟩

end Lexer

end BlockLexer
