import BlockLexer.Proofs.Trails
import BlockLexer.Proofs.Way

/-!
# Texts below another one

A text may be read on its own, or below another text.  Its lines are the same, with more
lines and bytes in front of them.  This module says that a scan of it does the same in both
cases, once it has come to its first line.

* `LineTable.lines_append` is the table of two texts, one below the other.
* `Shift.below` is what the numbers differ by, and `Shift.answers_below` says that the two
  tables answer alike.
* `Scan.IsBelow.exists_run` is the run of the scan.
-/

namespace BlockLexer

open Text

/-! ## Two texts -/

/-- A line with more lines and bytes in front of it. -/
def Line.below (lines bytes : Nat) (line : Line) : Line :=
  { line with number := line.number + lines, start := line.start + bytes }

namespace LineTable

variable {tabWidth : Nat} {above below : List Char}

theorem place_append (number start : Nat) (lines more : List (List Char)) :
    place tabWidth number start (lines ++ more) =
      place tabWidth number start lines ++
        place tabWidth (number + lines.length) (start + byteSize (unlines lines)) more := by
  induction lines generalizing number start with
  | nil => rfl
  | cons line lines ih =>
    have hfeed : '\n'.utf8Size = 1 := rfl
    rw [List.cons_append, place, place, ih, List.cons_append, List.length_cons, unlines_cons,
      byteSize_append, byteSize_cons, hfeed]
    congr 3
    · omega
    · omega

theorem place_add (number start moreLines moreBytes : Nat) (lines : List (List Char)) :
    place tabWidth (number + moreLines) (start + moreBytes) lines =
      (place tabWidth number start lines).map (Line.below moreLines moreBytes) := by
  induction lines generalizing number start with
  | nil => rfl
  | cons line lines ih =>
    rw [place, place, List.map_cons, ← ih]
    congr 2
    · omega
    · omega

/-- The table of two texts has the lines of the one and then those of the other. -/
theorem lines_append (hclosed : above = [] ∨ above.getLast? = some '\n') :
    (ofText tabWidth (above ++ below)).lines =
      (ofText tabWidth above).lines ++
        (ofText tabWidth below).lines.map
          (Line.below (splitLines above).length (byteSize above)) := by
  have hfree : ∀ line ∈ splitLines above, '\n' ∉ line :=
    fun line hline => lineFeed_not_mem_of_mem_splitLines hline
  have habove := unlines_splitLines_of_closed hclosed
  have hsplit : splitLines (above ++ below) = splitLines above ++ splitLines below := by
    conv_lhs => rw [← habove]
    exact splitLines_unlines_append hfree below
  show place tabWidth 1 0 (splitLines (above ++ below)) = _
  rw [hsplit, place_append, habove, place_add]
  rfl

end LineTable

/-! ## What a table says below another one -/

/-- The lines of a table stand in another one, below other lines. -/
structure LineTable.IsBelow (table table' : LineTable) (lines bytes : Nat) : Prop where
  tabWidth : table'.tabWidth = table.tabWidth
  drop : table'.lines.drop lines = table.lines.map (Line.below lines bytes)

namespace LineTable.IsBelow

variable {table table' : LineTable} {lines bytes number : Nat}
  (h : table.IsBelow table' lines bytes)

include h

theorem drop_add (number : Nat) :
    table'.lines.drop (number + lines) =
      (table.lines.drop number).map (Line.below lines bytes) := by
  rw [Nat.add_comm, ← List.drop_drop, h.drop, List.map_drop]

theorem get?_add (hpos : 0 < number) :
    table'.get? (number + lines) = (table.get? number).map (Line.below lines bytes) := by
  obtain ⟨n, rfl⟩ := Nat.exists_eq_succ_of_ne_zero (Nat.ne_of_gt hpos)
  have hhead := congrArg List.head? (h.drop_add n)
  rw [List.head?_drop, List.head?_map, List.head?_drop] at hhead
  have hsucc : n + 1 + lines = n + lines + 1 := by omega
  rw [Nat.succ_eq_add_one, hsucc, get?_succ, get?_succ]
  exact hhead

theorem indentOf_add (hpos : 0 < number) :
    table'.indentOf (number + lines) = table.indentOf number := by
  rw [indentOf, indentOf, h.get?_add hpos]
  cases table.get? number <;> rfl

theorem nextContentAfter_add (number : Nat) :
    table'.nextContentAfter (number + lines) =
      (table.nextContentAfter number).map (Line.below lines bytes) := by
  rw [nextContentAfter, nextContentAfter, h.drop_add, List.find?_map]
  rfl

theorem bodyIndent_add (number : Nat) :
    table'.bodyIndent (number + lines) = table.bodyIndent number := by
  rw [bodyIndent, bodyIndent, h.drop_add, List.find?_map]
  show Option.elim (Option.map _ ((table.lines.drop number).find? fun line => !line.isBlank)) _ _ = _
  cases (table.lines.drop number).find? fun line => !line.isBlank <;> rfl

/-- The last line of a body that is not blank. -/
theorem lastFilled_add {marker : Nat} (hpos : 0 < marker) (hle : marker ≤ number) :
    OpenBody.lastFilled table' (marker + lines) (number + lines) =
      OpenBody.lastFilled table marker number + lines := by
  induction number with
  | zero => omega
  | succ number ih =>
    have hsucc : number + 1 + lines = number + lines + 1 := by omega
    have hblank : (table'.get? (number + 1 + lines)).any Line.isBlank =
        (table.get? (number + 1)).any Line.isBlank := by
      rw [h.get?_add (Nat.succ_pos number), Option.any_map]
      rfl
    have hbehind : decide (marker + lines < number + 1 + lines) = decide (marker < number + 1) := by
      rw [decide_eq_decide]
      omega
    rw [hsucc] at hblank hbehind
    rw [hsucc, OpenBody.lastFilled, OpenBody.lastFilled, hblank, hbehind]
    split
    · next hskip =>
      simp only [Bool.and_eq_true, decide_eq_true_eq] at hskip
      exact ih (by omega)
    · omega

end LineTable.IsBelow

/-! ## The shift -/

namespace Shift

/-- The shift by lines and bytes that stand above. -/
def below (lines bytes : Nat) : Shift where
  lines := lines
  width := 0
  bytes m n := n = m + bytes
  bytes_add h k := by omega

variable {table table' : LineTable} {lines bytes current : Nat} {s s' : Scan}

section Tables

variable (h : table.IsBelow table' lines bytes)

include h

theorem bodies_below (marker : Line) :
    (below lines bytes).Bodies (.ofMarker table marker)
      (.ofMarker table' (marker.below lines bytes)) := by
  refine ⟨rfl, ?_, h.bodyIndent_add marker.number, rfl⟩
  have hnext : (marker.below lines bytes).number + 1 = marker.number + 1 + lines := by
    show marker.number + lines + 1 = _
    omega
  show Option.elim (table'.get? ((marker.below lines bytes).number + 1)) _ _ =
    Option.elim (table.get? (marker.number + 1)) _ _ + bytes
  rw [hnext, h.get?_add (Nat.succ_pos _)]
  cases table.get? (marker.number + 1) with
  | none =>
    show marker.start + bytes + byteSize marker.chars + 1 =
      marker.start + byteSize marker.chars + 1 + bytes
    omega
  | some ahead => rfl

/-- A body that is closed behind the same line. -/
theorem closings_below {body body' : OpenBody} (hbodies : (below lines bytes).Bodies body body')
    (hpos : 0 < body.marker) (last : Nat) :
    (below lines bytes).Closings
      (body.close table (if body.marker < last then some last else none))
      (body'.close table' (if body'.marker < last + lines then some (last + lines) else none)) := by
  have hmarker : body'.marker = body.marker + lines := hbodies.marker
  have hstart : body'.start = body.start + bytes := hbodies.start
  have hindent : body'.indent = body.indent := hbodies.indent
  by_cases hlt : body.marker < last
  · have hlt' : body'.marker < last + lines := by omega
    rw [if_pos hlt, if_pos hlt']
    have hcount : last + lines - body'.marker = last - body.marker := by omega
    refine ⟨?_, hstart, ?_⟩
    · unfold OpenBody.close OpenBody.startLine
      dsimp only
      rw [hcount, hmarker, h.drop_add, ← List.map_take, List.map_map, hindent, h.tabWidth,
        hbodies.names]
      rw [BodyText.mk.injEq]
      refine ⟨?_, rfl, rfl⟩
      show body.marker + lines + 1 = body.marker + 1 + lines
      omega
    · show Option.elim (table'.get? (last + lines)) _ _ = Option.elim (table.get? last) _ _ + bytes
      rw [h.get?_add (by omega)]
      cases table.get? last with
      | none => exact hstart
      | some line =>
        show line.start + bytes + byteSize line.chars = line.start + byteSize line.chars + bytes
        omega
  · have hlt' : ¬ body'.marker < last + lines := by omega
    rw [if_neg hlt, if_neg hlt']
    refine ⟨?_, hstart, hstart⟩
    unfold OpenBody.close OpenBody.startLine
    rw [BodyText.mk.injEq]
    refine ⟨?_, rfl, hbodies.names⟩
    show body'.marker + 1 = body.marker + 1 + lines
    omega

theorem step_below {body body' : OpenBody} (hbodies : (below lines bytes).Bodies body body')
    (hpos : 0 < body.marker) (hle : body.marker ≤ current) :
    Option.Rel (below lines bytes).Closings (body.step table current)
      (body'.step table' (current + lines)) := by
  have hmarker : body'.marker = body.marker + lines := hbodies.marker
  have hindent : body'.indent = body.indent := hbodies.indent
  have hnext : current + lines + 1 = current + 1 + lines := by omega
  unfold OpenBody.step
  rw [hnext, h.get?_add (Nat.succ_pos current)]
  cases table.get? (current + 1) with
  | none => exact .none
  | some ahead =>
    dsimp only [Option.map_some]
    by_cases hend : ahead.isMarker = true
    · have hend' : (ahead.below lines bytes).isMarker = true := hend
      rw [if_pos hend, if_pos hend']
      exact .some (closings_below h hbodies hpos current)
    have hend' : ¬ (ahead.below lines bytes).isMarker = true := hend
    rw [if_neg hend, if_neg hend', hindent]
    by_cases hleft : (!ahead.isBlank && decide (ahead.indent < body.indent)) = true
    · have hleft' : (!(ahead.below lines bytes).isBlank &&
          decide ((ahead.below lines bytes).indent < body.indent)) = true := hleft
      rw [if_pos hleft, if_pos hleft', hmarker, h.lastFilled_add hpos hle, ← hmarker]
      exact .some (closings_below h hbodies hpos _)
    · have hleft' : ¬ (!(ahead.below lines bytes).isBlank &&
          decide ((ahead.below lines bytes).indent < body.indent)) = true := hleft
      rw [if_neg hleft, if_neg hleft']
      exact .none

/-- The two tables answer alike. -/
theorem answers_below {rule : Rule} (hpos : 0 < s.position.line)
    (hbodies : Scan.HoldsBodies table s)
    (hp : (below lines bytes).Positions 0 s.position s'.position) :
    (below lines bytes).Answers table table' rule s s' := by
  have hline : s'.position.line = s.position.line + lines := hp.line
  refine ⟨fun _ => ?_, fun _ _ => ?_, fun _ _ => ?_, fun _ body body' outer hmodes hsame => ?_⟩
  · rw [hline, h.indentOf_add hpos]
    rfl
  · rw [hline, h.get?_add hpos]
    cases table.get? s.position.line with
    | none => exact .none
    | some marker => exact .some (bodies_below h marker)
  · rw [hline, h.nextContentAfter_add, Option.map_map]
    rfl
  · have hholds := hbodies body outer hmodes
    rw [hline]
    exact step_below h hsame hholds.pos hholds.le

end Tables

end Shift

/-! ## Runs -/

namespace Scan

variable {table table' : LineTable} {lines bytes : Nat} {text : List Char} {s s' t u : Scan}
  {pieces : List Piece}

/-- The second scan reads the same as the first one, below other lines. -/
structure IsBelow (lines bytes : Nat) (s s' : Scan) : Prop where
  rest : s'.rest = s.rest
  positions : (Shift.below lines bytes).Positions 0 s.position s'.position
  memories : (Shift.below lines bytes).Memories s s'

/-- The later stages do not move the two. -/
theorem IsBelow.of_settles {piece piece' : Piece} {t' u' : Scan} (h : IsBelow lines bytes t t')
    (hsettles : Settles table piece t u) (hsettles' : Settles table' piece' t' u')
    (hmemories : (Shift.below lines bytes).Memories u u') : IsBelow lines bytes u u' := by
  refine ⟨?_, ?_, hmemories⟩
  · rw [hsettles'.rest_eq, hsettles.rest_eq, h.rest]
  · rw [hsettles'.position_eq, hsettles.position_eq]
    exact h.positions

/-- The two take the same step. -/
theorem IsBelow.exists_step (piece? : Option Piece) (hbelow : table.IsBelow table' lines bytes)
    (h : IsBelow lines bytes s s') (hway : OnWay table text s)
    (hstep : s.step table = (t, piece?.map Except.ok)) :
    ∃ t' piece?', s'.step table' = (t', piece?'.map Except.ok) ∧ IsBelow lines bytes t t' ∧
      Option.Rel ((Shift.below lines bytes).Pieces 0) piece? piece?' := by
  rcases exists_of_step piece? hstep with ⟨hrest, rfl, hfinish⟩ | ⟨rule, m, -, -, hselect, -⟩
  · have hrest' : s'.rest = [] := h.rest.trans hrest
    cases piece? with
    | none => cases hfinish
    | some piece =>
      obtain ⟨piece', hfinish', hpieces⟩ :=
        Shift.exists_finish table' h.memories h.positions (Option.some.inj hfinish).symm
      refine ⟨{ s' with isDone := true }, some piece', ?_, ⟨h.rest, h.positions, ?_⟩, .some hpieces⟩
      · rw [step_of_rest_nil table' hrest', hfinish']
        rfl
      · exact ⟨h.memories.modes, h.memories.blocks, h.memories.last, h.memories.afterBody, rfl⟩
  · have hselect' : s'.mode.select s'.rest = some (rule, m) := by
      rw [h.memories.mode, h.rest]
      exact hselect
    obtain ⟨t', piece?', hstep', hmemories, hpieces, hmoves, hmoves'⟩ :=
      Shift.exists_step h.memories h.positions hselect hselect' (fun _ => rfl)
        (Shift.answers_below hbelow hway.stands.line_pos hway.bodies h.positions) hstep
    refine ⟨t', piece?', hstep', ⟨?_, ?_, hmemories⟩, hpieces⟩
    · rw [hmoves'.rest, hmoves.rest, h.rest]
    · rw [hmoves'.position, hmoves.position]
      exact h.positions.after_of_zero m.lexeme

/-- The two yield the same pieces, but for the lines and bytes above. -/
theorem IsBelow.exists_run (hbelow : table.IsBelow table' lines bytes)
    (hnumbered : table.Numbered) (h : IsBelow lines bytes s s') (hway : OnWay table text s)
    (hrun : Run table s pieces u) :
    ∃ pieces' u', Run table' s' pieces' u' ∧ u'.isDone = u.isDone ∧
      (Shift.below lines bytes).Trails (fun _ columns => columns = 0) pieces pieces' := by
  induction hrun generalizing s' with
  | refl s => exact ⟨[], s', .refl s', h.memories.isDone, .nil⟩
  | quiet hs hstep _ ih =>
    obtain ⟨t', piece?', hstep', ht, hpieces⟩ := h.exists_step none hbelow hway hstep
    cases hpieces
    obtain ⟨pieces', u', hrun', hdone, htrails⟩ := ih ht (hway.step none hnumbered hs hstep)
    exact ⟨pieces', u', .quiet (h.memories.isDone.trans hs) hstep' hrun', hdone, htrails⟩
  | @piece s t v u piece pieces hs hstep hsettles _ ih =>
    obtain ⟨t', piece?', hstep', ht, hpieces⟩ := h.exists_step (some piece) hbelow hway hstep
    cases piece?' with
    | none => cases hpieces
    | some piece' =>
    obtain ⟨hpiece⟩ := hpieces
    have hindent (hkind : piece.kind = .token .attributeName) :
        table'.indentOf piece'.span.line = table.indentOf piece.span.line := by
      have hpos : 0 < piece.span.line := by
        rw [line_of_attributeName hs hstep hkind]
        exact hway.stands.line_pos
      rw [hpiece.line]
      exact hbelow.indentOf_add hpos
    obtain ⟨v', hsettles', hmemories⟩ := Shift.exists_settles ht.memories hpiece hsettles hindent
    have hv := ht.of_settles hsettles hsettles' hmemories
    have hway' := (hway.step (some piece) hnumbered hs hstep).settles hsettles
    obtain ⟨pieces', u', hrun', hdone, htrails⟩ := ih hv hway'
    exact ⟨piece' :: pieces', u', .piece (h.memories.isDone.trans hs) hstep' hsettles' hrun', hdone,
      .cons hpiece rfl htrails⟩

end Scan

end BlockLexer
