import BlockLexer.Proofs.Collected
import BlockLexer.Proofs.Finished

/-!
# Texts above another one

A text may be read on its own, or with more text behind it.  A scan looks ahead without a
bound, for the first line of a body and for the first member of a block.  But if it comes to
the end of the text on its own, then it finds there what it looks for.  So what follows the
text has no influence.

* `LineTable.IsAbove` are two tables that begin with the same lines, and the lemmas in its
  namespace say which questions the two answer alike.
* `Scan.IsAbove.answers`: no rule asks any other question, if the scan comes to the end.
* `Scan.IsAbove.exists_run` is the run of the scan up to the end of the text.
-/

namespace BlockLexer

open Text

/-! ## What a table says above another one -/

/-- A table whose lines another table begins with. -/
structure LineTable.IsAbove (table table' : LineTable) : Prop where
  tabWidth : table'.tabWidth = table.tabWidth
  lines : table.lines <+: table'.lines

namespace LineTable.IsAbove

variable {table table' : LineTable} {number : Nat} (h : table.IsAbove table')

include h

theorem get?_eq (hle : number ≤ table.size) : table'.get? number = table.get? number := by
  obtain ⟨more, hmore⟩ := h.lines
  cases number with
  | zero => rfl
  | succ n => rw [get?_succ, get?_succ, ← hmore, List.getElem?_append_left hle]

theorem indentOf_eq (hle : number ≤ table.size) :
    table'.indentOf number = table.indentOf number := by
  rw [indentOf, indentOf, h.get?_eq hle]

/-- What is found in the lines that are left is found there with more lines behind them. -/
theorem find?_eq {p : Line → Bool} (hfound : ∃ line ∈ table.lines.drop number, p line = true) :
    (table'.lines.drop number).find? p = (table.lines.drop number).find? p := by
  obtain ⟨more, hmore⟩ := h.lines
  obtain ⟨line, hline, hp⟩ := hfound
  have hle : number ≤ table.lines.length := by
    by_contra hlt
    rw [List.drop_eq_nil_of_le (by omega)] at hline
    cases hline
  obtain ⟨first, hfirst⟩ := Option.isSome_iff_exists.1 (List.find?_isSome.2 ⟨line, hline, hp⟩)
  rw [← hmore, List.drop_append_of_le_length hle, List.find?_append, hfirst]
  rfl

theorem lastFilled_eq (marker : Nat) (hle : number ≤ table.size) :
    OpenBody.lastFilled table' marker number = OpenBody.lastFilled table marker number := by
  induction number with
  | zero => rfl
  | succ number ih =>
    rw [OpenBody.lastFilled, OpenBody.lastFilled, h.get?_eq hle, ih (Nat.le_of_succ_le hle)]

theorem close_eq (body : OpenBody) {last? : Option Nat} (hle : ∀ last ∈ last?, last ≤ table.size) :
    body.close table' last? = body.close table last? := by
  cases last? with
  | none => rfl
  | some last =>
    have hlast := hle last rfl
    obtain ⟨more, hmore⟩ := h.lines
    have hlines : (table'.lines.drop body.marker).take (last - body.marker) =
        (table.lines.drop body.marker).take (last - body.marker) := by
      rw [← hmore, List.take_drop, List.take_drop]
      by_cases hlt : last < body.marker
      · rw [List.drop_eq_nil_of_le, List.drop_eq_nil_of_le]
        · rw [List.length_take]
          omega
        · rw [List.length_take]
          omega
      · have hsum : body.marker + (last - body.marker) ≤ table.lines.length := by
          have hsize : last ≤ table.lines.length := hlast
          omega
        rw [List.take_append_of_le_length hsum]
    unfold OpenBody.close
    dsimp only [Option.bind_some]
    rw [hlines, h.tabWidth, h.get?_eq hlast]

/-- A body ends alike as long as there is a line to look at. -/
theorem step_eq (body : OpenBody) {current : Nat} (hle : current + 1 ≤ table.size) :
    body.step table' current = body.step table current := by
  have hclose (last : Nat) (hlast : last ≤ current) :
      body.close table' (if body.marker < last then some last else none) =
        body.close table (if body.marker < last then some last else none) := by
    apply h.close_eq
    intro n hn
    obtain ⟨-, hn⟩ := Option.ite_none_right_eq_some.1 hn
    obtain rfl := Option.some.inj hn
    omega
  unfold OpenBody.step
  rw [h.get?_eq hle]
  cases table.get? (current + 1) with
  | none => rfl
  | some ahead =>
    dsimp only
    rw [hclose current (Nat.le_refl _), h.lastFilled_eq body.marker (by omega),
      hclose _ (OpenBody.lastFilled_le table body.marker current)]

end LineTable.IsAbove

/-! ## The rules -/

namespace Scan

variable {table table' : LineTable} {tabWidth : Nat} {text more : List Char} {s s' t u v : Scan}
  {pieces : List Piece} {piece? : Option Piece} {rule : Rule} {m : Match}

/-- The second scan reads the same as the first one, and more behind it. -/
structure IsAbove (more : List Char) (s s' : Scan) : Prop where
  rest : s'.rest = s.rest ++ more
  position : s'.position = s.position
  memories : Shift.still.Memories s s'

theorem IsAbove.positions (h : IsAbove more s s') :
    Shift.still.Positions 0 s.position s'.position :=
  ⟨congrArg Position.offset h.position.symm, congrArg Position.line h.position,
    congrArg Position.column h.position⟩

/-- The later stages do not move the two. -/
theorem IsAbove.of_settles {piece piece' : Piece} {t' v' : Scan} (h : IsAbove more t t')
    (hsettles : Settles table piece t v) (hsettles' : Settles table' piece' t' v')
    (hmemories : Shift.still.Memories v v') : IsAbove more v v' := by
  refine ⟨?_, ?_, hmemories⟩
  · rw [hsettles'.rest_eq, hsettles.rest_eq, h.rest]
  · rw [hsettles'.position_eq, hsettles.position_eq, h.position]

/-! ### What is open behind an action -/

section Actions

variable {a : Scan}

theorem modes_of_headerNewline (hact : s.act table .headerNewline m = (a, .ok piece?)) :
    a.modes = s.modes := by
  cases accepts_of_act hact <;> rfl

theorem modes_of_bodyLine {body : OpenBody} {outer : List Activation}
    (hact : s.act table .bodyLine m = (a, .ok piece?)) (hmodes : s.modes = .body body :: outer)
    (hstep : body.step table s.position.line = none) : a.modes = .body body :: outer := by
  cases accepts_of_act hact with
  | bodyLine => exact hmodes
  | lastBodyLine hopen hclosed =>
    obtain ⟨hsame, -⟩ := List.cons.inj (hopen.symm.trans hmodes)
    obtain rfl := Activation.body.inj hsame
    cases hclosed.symm.trans hstep

end Actions

section Answers

variable {a : Scan} (htable : (LineTable.ofText tabWidth text).IsAbove table')
  (hclosed : text = [] ∨ text.getLast? = some '\n')

include htable

/-- A body that is opened is the same, if there is a line in it. -/
theorem ofMarker_eq {marker : Line}
    (hfilled : ∃ line ∈ (LineTable.ofText tabWidth text).lines.drop marker.number,
      (!line.isBlank) = true) :
    OpenBody.ofMarker table' marker = .ofMarker (.ofText tabWidth text) marker := by
  have hsize : marker.number + 1 ≤ (LineTable.ofText tabWidth text).size := by
    obtain ⟨line, hline, -⟩ := hfilled
    have hpos := List.length_pos_of_mem hline
    rw [List.length_drop] at hpos
    have hlength : marker.number + 1 ≤ (LineTable.ofText tabWidth text).lines.length := by omega
    exact hlength
  unfold OpenBody.ofMarker LineTable.bodyIndent
  rw [htable.get?_eq hsize, htable.find?_eq hfilled]

include hclosed

/-- The two tables answer alike, if the scan comes to the end of its text. -/
theorem IsAbove.answers (h : IsAbove more s s') (hway : OnWay (.ofText tabWidth text) text s)
    (hrest : s.rest ≠ []) (hselect : s.mode.select s.rest = some (rule, m))
    (hact : (s.report (.ruleMatched rule s.mode s.position.line s.position.column)).act
      (.ofText tabWidth text) rule m = (a, .ok piece?))
    (hway' : OnWay (.ofText tabWidth text) text v) (hv : v.isDone = false)
    (hmodes : v.modes = a.modes) (hposition : v.position = s.position.after m.lexeme)
    (hrun : Run (.ofText tabWidth text) v pieces u) (hu : u.isDone = true) :
    Shift.still.Answers (.ofText tabWidth text) table' rule s s' := by
  have hsize : s.position.line ≤ (LineTable.ofText tabWidth text).size := by
    rw [LineTable.size_ofText]
    exact hway.stands.line_le hclosed hrest
  have hmatch := Mode.match?_of_select hselect
  have hline : s'.position.line = s.position.line := congrArg Position.line h.position
  refine ⟨fun _ => ?_, fun hrule hafter => ?_, fun hrule hheader => ?_,
    fun hrule body body' outer hopen hbodies => ?_⟩
  · rw [hline]
    exact htable.indentOf_eq hsize
  · subst hrule
    rw [hline, htable.get?_eq hsize]
    cases hmarker : (LineTable.ofText tabWidth text).get? s.position.line with
    | none => exact .none
    | some marker =>
      have hle : s.position.line ≤ v.position.line := by
        rw [hposition, Position.line_after]
        exact Nat.le_add_right _ _
      have hfilled := hrun.exists_filled_of_openBody (LineTable.numbered_ofText tabWidth text) hu hv
        hact hafter hmarker hmodes hle
      have hsame := ofMarker_eq htable hfilled
      exact .some (hsame ▸ ⟨rfl, rfl, rfl, rfl⟩)
  · subst hrule
    have hblock : s.mode = .block := Mode.eq_of_mem_rules (mem_rules_of_select hselect) rfl
    have hmode : v.mode = .block := by
      rw [mode, hmodes, modes_of_headerNewline hact]
      exact hblock
    have hlexeme : m.lexeme = ['\n'] := by
      obtain ⟨c, left, hfeed, hlexeme, -⟩ := Match.exists_of_one hmatch
      rw [hlexeme, of_decide_eq_true hfeed]
    have hnext : v.position = s.position.next '\n' := by
      rw [hposition, hlexeme]
      rfl
    obtain ⟨line, hmem, hcontent⟩ := hrun.exists_content hclosed hway'.stands
      (by rw [hnext]; rfl) hu hv hmode
    have hbehind : v.position.line - 1 = s.position.line := by
      rw [hnext]
      rfl
    rw [hbehind] at hmem
    unfold LineTable.nextContentAfter
    rw [hline, htable.find?_eq ⟨line, hmem, hcontent⟩]
    rfl
  · subst hrule
    obtain rfl := Shift.eq_of_bodies_still hbodies
    -- Either the body ends in front of the next line, or it is closed later on.
    have hnext : s.position.line + 1 ≤ (LineTable.ofText tabWidth text).size := by
      cases hstep : body'.step (.ofText tabWidth text) s.position.line with
      | some closed =>
        obtain ⟨ahead, hahead, -⟩ := OpenBody.exists_filled hstep
        exact LineTable.le_size_of_get? hahead
      | none =>
        rw [modes_of_bodyLine hact hopen hstep] at hmodes
        obtain ⟨current, closed, hle, hclosed⟩ := hrun.exists_closing hu hv hmodes
        obtain ⟨ahead, hahead, -⟩ := OpenBody.exists_filled hclosed
        have hlast := LineTable.le_size_of_get? hahead
        have hbefore : s.position.line ≤ v.position.line := by
          rw [hposition, Position.line_after]
          exact Nat.le_add_right _ _
        omega
    rw [hline, htable.step_eq body' hnext]
    cases body'.step (.ofText tabWidth text) s.position.line with
    | none => exact .none
    | some closed => exact .some ⟨rfl, rfl, rfl⟩

omit htable in
/-- The same rule is selected.  The text of a string ends in front of what follows, because
the string is closed. -/
theorem IsAbove.select (h : IsAbove more s s') (hway : OnWay (.ofText tabWidth text) text s)
    (hrest : s.rest ≠ []) (hselect : s.mode.select s.rest = some (rule, m))
    (htext : rule.RunsOn → s.rest.drop m.lexeme.length ≠ []) :
    s'.mode.select s'.rest = some (rule, m) := by
  obtain ⟨init, hinit⟩ := List.getLast?_eq_some_iff.1
    ((hway.stands.closed_rest hclosed).resolve_left hrest)
  have hfeed : '\n' ∈ s.rest := by
    rw [hinit]
    exact List.mem_append_right init List.mem_cons_self
  obtain ⟨line, behind, hsplit, hline⟩ := List.eq_append_cons_of_mem hfeed
  obtain ⟨left, hleft⟩ := Rule.exists_append_of_match? (Mode.match?_of_select hselect)
  rw [h.memories.mode, h.rest, hsplit, List.append_assoc, List.cons_append]
  refine Mode.select_of_line hline (hsplit ▸ hselect) fun hruns => ?_
  have hne := htext hruns
  rw [hleft, List.drop_left] at hne
  obtain ⟨c, behind', rfl⟩ := List.exists_cons_of_ne_nil hne
  refine ⟨c, behind', behind' ++ more, hsplit ▸ hleft, ?_⟩
  have happend := congrArg (· ++ more) (hsplit.symm.trans hleft)
  simpa using happend

/-- The two take the same step. -/
theorem IsAbove.exists_step (piece? : Option Piece) (h : IsAbove more s s')
    (hway : OnWay (.ofText tabWidth text) text s) (hrest : s.rest ≠ [])
    (hstep : s.step (.ofText tabWidth text) = (t, piece?.map Except.ok))
    (hway' : OnWay (.ofText tabWidth text) text v) (hv : v.isDone = false)
    (hmodes : v.modes = t.modes) (hrest' : v.rest = t.rest) (hposition : v.position = t.position)
    (hrun : Run (.ofText tabWidth text) v pieces u) (hu : u.isDone = true) :
    ∃ t', s'.step table' = (t', piece?.map Except.ok) ∧ IsAbove more t t' := by
  rcases exists_of_step piece? hstep with ⟨hnil, -⟩ | ⟨rule, m, a, left, hselect, hleft, hact,
    htmodes, htrest, htposition⟩
  · exact absurd hnil hrest
  have htext : rule.RunsOn → s.rest.drop m.lexeme.length ≠ [] := by
    rintro ⟨style, rfl, -⟩ hnil
    have hvrest : v.rest = [] := by
      rw [hleft, List.drop_left] at hnil
      rw [hrest', htrest, hnil]
    -- Otherwise the text of the string would reach to the end.
    have hvmodes := hrun.modes_of_rest_nil hu hv hvrest
    have hmode : s.mode = .string style := Mode.eq_of_mem_rules (mem_rules_of_select hselect) rfl
    obtain ⟨raw, line, column, outer, hstring⟩ := exists_of_mode_eq_string hmode
    obtain ⟨rfl, -⟩ := Prod.mk.inj hact
    rw [hmodes, htmodes] at hvmodes
    cases hstring.symm.trans hvmodes
  have hselect' := h.select hclosed hway hrest hselect htext
  have hanswers := h.answers htable hclosed hway hrest hselect hact hway' hv
    (hmodes.trans htmodes) (hposition.trans htposition) hrun hu
  obtain ⟨t', piece?', hstep', hmemories, hpieces, hmoves, hmoves'⟩ :=
    Shift.exists_step h.memories h.positions hselect hselect' (fun _ => rfl) hanswers hstep
  have hsame : piece?' = piece? := by
    cases hpieces with
    | none => rfl
    | some hpiece => rw [Shift.eq_of_pieces_still hpiece]
  rw [hsame] at hstep'
  refine ⟨t', hstep', ?_, ?_, hmemories⟩
  · rw [hmoves'.rest, hmoves.rest, h.rest, hleft, List.append_assoc, List.drop_left, List.drop_left]
  · rw [hmoves'.position, hmoves.position, h.position]

/-- The two yield the same pieces up to the end of the text. -/
theorem IsAbove.exists_run (h : IsAbove more s s') (hway : OnWay (.ofText tabWidth text) text s)
    (hs : s.isDone = false) (hrun : Run (.ofText tabWidth text) s pieces u)
    (hu : u.isDone = true) :
    ∃ before t t', pieces = before ++ [t.token .endOfText .nothing []] ∧
      Run (.ofText tabWidth text) s before t ∧ Run table' s' before t' ∧ IsAbove more t t' ∧
      t.isDone = false ∧ t.rest = [] ∧ t.modes = [] := by
  have hnumbered := LineTable.numbered_ofText tabWidth text
  induction hrun generalizing s' with
  | refl s => simp [hs] at hu
  | @quiet s t u pieces _ hstep hrest ih =>
    have ht := (step_quiet (.ofText tabWidth text) hstep).2.trans hs
    have hway' := hway.step none hnumbered hs hstep
    have hne := rest_ne_nil_of_step_quiet hstep
    obtain ⟨t', hstep', habove⟩ :=
      h.exists_step htable hclosed none hway hne hstep hway' ht rfl rfl rfl hrest hu
    obtain ⟨before, e, e', hpieces, hbefore, hbefore', hend⟩ := ih habove hway' ht hu
    exact ⟨before, e, e', hpieces, .quiet hs hstep hbefore,
      .quiet (h.memories.isDone.trans hs) hstep' hbefore', hend⟩
  | @piece s t v u piece pieces _ hstep hsettles hrest ih =>
    by_cases hnil : s.rest = []
    · -- Here the text ends.
      have hfinish := step_of_rest_nil (.ofText tabWidth text) hnil
      have hmodes := (Run.piece hs hstep hsettles hrest).modes_of_rest_nil hu hs hnil
      obtain ⟨rfl, hpiece⟩ := Prod.mk.inj (hfinish.symm.trans hstep)
      obtain ⟨rfl, -⟩ := hrest.eq_of_isDone hsettles.same.2.2
      have hend := finish_of_modes_nil (.ofText tabWidth text) hmodes
      obtain rfl := Except.ok.inj (hend.symm.trans (Option.some.inj hpiece))
      exact ⟨[], s, s', rfl, .refl s, .refl s', h, hs, hnil, hmodes⟩
    · have hv := hsettles.same.2.2.trans (isDone_of_step hs hnil hstep)
      have hway' := (hway.step (some piece) hnumbered hs hstep).settles hsettles
      obtain ⟨t', hstep', habove⟩ := h.exists_step htable hclosed (some piece) hway hnil hstep
        hway' hv hsettles.same.1 hsettles.rest_eq hsettles.position_eq hrest hu
      have hindent (hkind : piece.kind = .token .attributeName) :
          table'.indentOf piece.span.line =
            (LineTable.ofText tabWidth text).indentOf piece.span.line := by
        apply htable.indentOf_eq
        rw [line_of_attributeName hs hstep hkind, LineTable.size_ofText]
        exact hway.stands.line_le hclosed hnil
      obtain ⟨v', hsettles', hmemories⟩ :=
        Shift.exists_settles habove.memories (Shift.pieces_still piece) hsettles hindent
      have habove' := habove.of_settles hsettles hsettles' hmemories
      obtain ⟨before, e, e', rfl, hbefore, hbefore', hend⟩ := ih habove' hway' hv hu
      exact ⟨piece :: before, e, e', rfl, .piece hs hstep hsettles hbefore,
        .piece (h.memories.isDone.trans hs) hstep' hsettles' hbefore', hend⟩

end Answers

end Scan

end BlockLexer
