import BlockLexer.Proofs.Meanings
import BlockLexer.Proofs.Way

/-!
# Scans in step

Two scans of different texts may do the same step by step, as long as they read the same
and their tables answer alike.

* `Shift.loose` is the shift by nothing that leaves bytes out of account.
* `Scan.Twin` are two scans at the same line and column that remember the same, and
  `Scan.Twin.exists_step` is the step that both take.
* `Scan.InStep` is what two scans need for their next step to be the same, and
  `Scan.Twin.exists_run` follows a run, move by move, as long as they have it.
* `Scan.Run.compare`: of two runs from the same beginning one goes on with the other, and
  `Scan.Run.resume`: a run to the end passes every state on the way.
* `Scan.Finishes` is what a scan yields up to the end, and `Scan.LeadsTo` are the tokens that
  are made of it.
-/

namespace BlockLexer

open Text

/-! ## The loose shift -/

namespace Shift

/-- The shift by nothing.  Bytes are left out of account. -/
def loose : Shift where
  lines := 0
  width := 0
  bytes _ _ := True
  bytes_add _ _ := trivial

theorem value_loose (value : Value) : loose.value value = value := by
  cases value <;> rfl

theorem frame_loose : loose.frame = id := by
  funext frame
  obtain ⟨owner, line, headerIndent, required, bounded⟩ := frame
  cases required <;> rfl

theorem agrees_of_pieces_loose {piece piece' : Piece} (h : loose.Pieces 0 piece piece') :
    piece.Agrees piece' := by
  refine ⟨h.kind, h.value.trans (value_loose _), h.line, fun _ => ?_⟩
  have hcolumn := h.column
  rwa [ite_self] at hcolumn

theorem bodies_loose_symm {body body' : OpenBody} (h : loose.Bodies body body') :
    loose.Bodies body' body :=
  ⟨h.marker.symm, trivial, h.indent.symm, h.names.symm⟩

theorem activations_loose_symm {a a' : Activation} (h : loose.Activations a a') :
    loose.Activations a' a := by
  cases h with
  | block => exact .block
  | expression brackets => exact .expression brackets
  | body h => exact .body (bodies_loose_symm h)
  | string style raw line column line' column' => exact .string style raw line' column' line column

theorem memories_loose_symm {s s' : Scan} (h : loose.Memories s s') : loose.Memories s' s := by
  refine ⟨?_, ?_, ?_, h.afterBody.symm, h.isDone.symm⟩
  · exact (h.modes.imp fun _ _ => activations_loose_symm).flip
  · have hblocks := h.blocks
    rw [frame_loose, List.map_id] at hblocks ⊢
    exact hblocks.symm
  · have hlast := h.last
    have hsame (token? : Option (Kind × Nat)) :
        token?.map (fun token => (token.1, token.2 + loose.lines)) = token? := by
      cases token? <;> rfl
    rw [hsame] at hlast ⊢
    exact hlast.symm

end Shift

namespace Scan

variable {table table' : LineTable} {s s' t u v : Scan} {pieces before after : List Piece}
  {piece : Piece} {rule : Rule} {m : Match} {tokens : List Token}

/-! ## Twins -/

/-- Two scans at the same line and column that remember the same. -/
structure Twin (s s' : Scan) : Prop where
  positions : Shift.loose.Positions 0 s.position s'.position
  memories : Shift.loose.Memories s s'

namespace Twin

theorem symm (h : Twin s s') : Twin s' s :=
  ⟨⟨trivial, h.positions.line.symm, h.positions.column.symm⟩, Shift.memories_loose_symm h.memories⟩

theorem line_eq (h : Twin s s') : s'.position.line = s.position.line :=
  h.positions.line

theorem mode_eq (h : Twin s s') : s'.mode = s.mode :=
  h.memories.mode

theorem blocks_eq (h : Twin s s') : s'.blocks = s.blocks := by
  rw [h.memories.blocks, Shift.frame_loose, List.map_id]

/-- The two take the same step with the same match, if the tables answer alike. -/
theorem exists_step (piece? : Option Piece) (h : Twin s s')
    (hselect : s.mode.select s.rest = some (rule, m))
    (hselect' : s'.mode.select s'.rest = some (rule, m))
    (hanswers : Shift.loose.Answers table table' rule s s')
    (hstep : s.step table = (t, piece?.map Except.ok)) :
    ∃ t' piece?', s'.step table' = (t', piece?'.map Except.ok) ∧ Twin t t' ∧
      Option.Rel (Shift.loose.Pieces 0) piece? piece?' ∧ s'.Moves t' m := by
  obtain ⟨t', piece?', hstep', hmemories, hpieces, hmoves, hmoves'⟩ :=
    Shift.exists_step h.memories h.positions hselect hselect' (fun _ => rfl) hanswers hstep
  refine ⟨t', piece?', hstep', ⟨?_, hmemories⟩, hpieces, hmoves'⟩
  rw [hmoves.position, hmoves'.position]
  exact h.positions.after_of_zero m.lexeme

/-- The later stages do the same to both. -/
theorem exists_settles {piece piece' : Piece} (h : Twin t s')
    (hpieces : Shift.loose.Pieces 0 piece piece') (hsettles : Settles table piece t u)
    (hindent : piece.kind = .token .attributeName →
      table'.indentOf piece.span.line = table.indentOf piece.span.line) :
    ∃ u', Settles table' piece' s' u' ∧ Twin u u' := by
  obtain ⟨u', hsettles', hmemories⟩ := Shift.exists_settles h.memories hpieces hsettles
    fun hkind => by
      rw [hpieces.line]
      exact hindent hkind
  refine ⟨u', hsettles', ⟨?_, hmemories⟩⟩
  rw [hsettles.position_eq, hsettles'.position_eq]
  exact h.positions

end Twin

/-! ## In step -/

/-- What two scans have to have in common for the same match to be the next step of both: the
second one selects it, too, and the tables say the same to its rule. -/
structure InStep (table table' : LineTable) (rule : Rule) (m : Match) (s s' : Scan) : Prop where
  select : s'.mode.select s'.rest = some (rule, m)
  answers : Shift.loose.Answers table table' rule s s'
  indent : table'.indentOf s.position.line = table.indentOf s.position.line

/-- The name of an attribute is on the line of the scan, whose indentation is the same. -/
theorem InStep.indent_of_attributeName (h : InStep table table' rule m s s')
    (hs : s.isDone = false) (hstep : s.step table = (t, some (.ok piece)))
    (hkind : piece.kind = .token .attributeName) :
    table'.indentOf piece.span.line = table.indentOf piece.span.line := by
  rw [line_of_attributeName hs hstep hkind]
  exact h.indent

/-! ## Moves -/

/-- One move of a run: a step, and what the later stages do to the scan. -/
inductive Move (table : LineTable) : Scan → List Piece → Scan → Prop
  | quiet {s t : Scan} (hs : s.isDone = false) (hstep : s.step table = (t, none)) :
      Move table s [] t
  | piece {s t u : Scan} {piece : Piece} (hs : s.isDone = false)
      (hstep : s.step table = (t, some (.ok piece))) (hsettles : Settles table piece t u) :
      Move table s [piece] u

theorem Move.run {moved : List Piece} (h : Move table s moved t) : Run table s moved t := by
  cases h with
  | quiet hs hstep => exact .quiet hs hstep (.refl _)
  | piece hs hstep hsettles => exact .piece hs hstep hsettles (.refl _)

theorem Move.isDone_eq_false {moved : List Piece} (h : Move table s moved t) :
    s.isDone = false := by
  cases h with
  | quiet hs => exact hs
  | piece hs => exact hs

/-- A move is the step that is taken, and what the later stages do behind its piece. -/
theorem Move.of_step (piece? : Option Piece) {moved : List Piece} (h : Move table s moved u)
    (hstep : s.step table = (t, piece?.map Except.ok)) :
    moved = piece?.toList ∧ (piece? = none → u = t) ∧
      ∀ piece ∈ piece?, Settles table piece t u := by
  cases h with
  | quiet _ hquiet =>
    obtain ⟨rfl, hpiece⟩ := Prod.mk.inj (hstep.symm.trans hquiet)
    cases piece? with
    | none => exact ⟨rfl, fun _ => rfl, by simp⟩
    | some => cases hpiece
  | piece _ hyields hsettles =>
    obtain ⟨rfl, hpiece⟩ := Prod.mk.inj (hstep.symm.trans hyields)
    cases piece? with
    | none => cases hpiece
    | some piece =>
      obtain rfl := Except.ok.inj (Option.some.inj hpiece)
      refine ⟨rfl, (nomatch ·), ?_⟩
      rintro _ ⟨⟩
      exact hsettles

/-- A run is taken apart move by move. -/
@[elab_as_elim]
theorem Run.induction_on_moves {motive : ∀ s pieces, Run table s pieces u → Prop}
    (hrun : Run table s pieces u) (refl : motive u [] (.refl u))
    (move : ∀ {s v : Scan} {moved more : List Piece} (hmove : Move table s moved v)
      (hmore : Run table v more u), motive v more hmore →
      motive s (moved ++ more) (hmove.run.trans hmore)) : motive s pieces hrun := by
  induction hrun with
  | refl s => exact refl
  | quiet hs hstep hmore ih => exact move (.quiet hs hstep) hmore (ih refl move)
  | piece hs hstep hsettles hmore ih => exact move (.piece hs hstep hsettles) hmore (ih refl move)

/-- A step over a part of the text in front of what differs is a step of both. -/
theorem Twin.exists_step_within {text left left' : List Char} (piece? : Option Piece)
    (h : Twin s s') (hs : s.isDone = false) (hstep : s.step table = (t, piece?.map Except.ok))
    (hahead : ∃ ahead, t.rest = ahead ++ left) (hrest : s.rest = text ++ left)
    (hrest' : s'.rest = text ++ left') (hend : left = [] → left' = [])
    (hinStep : ∀ {rule : Rule} {m : Match} {ahead : List Char},
      s.mode.select s.rest = some (rule, m) → text = m.lexeme ++ ahead → t.rest = ahead ++ left →
      InStep table table' rule m s s') :
    ∃ t' piece?' passed ahead, s'.step table' = (t', piece?'.map Except.ok) ∧ Twin t t' ∧
      Option.Rel (Shift.loose.Pieces 0) piece? piece?' ∧ text = passed ++ ahead ∧
      t.rest = ahead ++ left ∧ t'.rest = ahead ++ left' ∧
      ∀ piece ∈ piece?, piece.kind = .token .attributeName →
        table'.indentOf piece.span.line = table.indentOf piece.span.line := by
  rcases exists_of_step piece? hstep with ⟨hnil, rfl, hfinish⟩ | ⟨rule, m, a, more, hselect, hmatch,
    -, -, hmoved, -⟩
  · obtain ⟨rfl, hleft⟩ := List.append_eq_nil_iff.1 (hrest.symm.trans hnil)
    have hnil' : s'.rest = [] := hrest'.trans (hend hleft)
    cases piece? with
    | none => cases hfinish
    | some piece =>
      obtain ⟨piece', hfinish', hpieces⟩ := Shift.exists_finish table' h.memories h.positions
        (Option.some.inj hfinish).symm
      refine ⟨{ s' with isDone := true }, some piece', [], [], ?_, ⟨h.positions, ?_⟩, .some hpieces,
        rfl, hrest, hrest', ?_⟩
      · rw [step_of_rest_nil table' hnil', hfinish']
        rfl
      · exact ⟨h.memories.modes, h.memories.blocks, h.memories.last, h.memories.afterBody, rfl⟩
      · rintro _ ⟨⟩ hkind
        rcases effect_of_step hs hstep with ⟨-, hend, -⟩ | ⟨hgoes, -⟩
        · cases hend.symm.trans hkind
        · cases hgoes
  · obtain ⟨ahead, hahead⟩ := hahead
    have htext : text = m.lexeme ++ ahead := by
      refine @List.append_cancel_right _ _ left _ ?_
      rw [← hrest, hmatch, ← hmoved, hahead, List.append_assoc]
    have hin := hinStep hselect htext hahead
    obtain ⟨t', piece?', hstep', htwin, hpieces, hmoves'⟩ :=
      h.exists_step piece? hselect hin.select hin.answers hstep
    refine ⟨t', piece?', m.lexeme, ahead, hstep', htwin, hpieces, htext, hahead, ?_, ?_⟩
    · rw [hmoves'.rest, hrest', htext, List.append_assoc, List.drop_left]
    · rintro piece ⟨⟩ hkind
      exact hin.indent_of_attributeName hs hstep hkind

/-- So is a move. -/
theorem Twin.exists_move (table' : LineTable) {text left left' : List Char} {moved : List Piece}
    (hmove : Move table s moved t) (h : Twin s s') (hahead : ∃ ahead, t.rest = ahead ++ left)
    (hrest : s.rest = text ++ left) (hrest' : s'.rest = text ++ left')
    (hend : left = [] → left' = [])
    (hinStep : ∀ {rule : Rule} {m : Match} {ahead : List Char},
      s.mode.select s.rest = some (rule, m) → text = m.lexeme ++ ahead → t.rest = ahead ++ left →
      InStep table table' rule m s s') :
    ∃ moved' t' passed ahead, Move table' s' moved' t' ∧ Twin t t' ∧
      List.Forall₂ Piece.Agrees moved moved' ∧ text = passed ++ ahead ∧ t.rest = ahead ++ left ∧
      t'.rest = ahead ++ left' := by
  cases hmove with
  | quiet hs hstep =>
    obtain ⟨t', piece?', passed, ahead, hstep', htwin, hpieces, htext, ht, ht', -⟩ :=
      h.exists_step_within none hs hstep hahead hrest hrest' hend hinStep
    cases hpieces
    exact ⟨[], t', passed, ahead, .quiet (h.memories.isDone.trans hs) hstep', htwin, .nil, htext, ht,
      ht'⟩
  | @piece _ v piece hs hstep hsettles =>
    rw [hsettles.rest_eq] at hahead hinStep
    obtain ⟨v', piece?', passed, ahead, hstep', htwin, hpieces, htext, hv, hv', hindent⟩ :=
      h.exists_step_within (some piece) hs hstep hahead hrest hrest' hend hinStep
    obtain ⟨piece', rfl, hpiece⟩ : ∃ piece', piece?' = some piece' ∧
        Shift.loose.Pieces 0 piece piece' := by
      cases hpieces with
      | some hpiece => exact ⟨_, rfl, hpiece⟩
    obtain ⟨t', hsettles', ht⟩ := htwin.exists_settles hpiece hsettles (hindent piece rfl)
    exact ⟨[piece'], t', passed, ahead, .piece (h.memories.isDone.trans hs) hstep' hsettles', ht,
      .cons (Shift.agrees_of_pieces_loose hpiece) .nil, htext, hsettles.rest_eq.trans hv,
      hsettles'.rest_eq.trans hv'⟩

/-- Where two scans stay in step as long as they read a text, a run of the one over the text is
a run of the other, and it has agreeing pieces. -/
theorem Twin.exists_run (table' : LineTable) {text left' : List Char} (hrun : Run table s pieces u)
    (h : Twin s s') (hrest : s.rest = text ++ u.rest) (hrest' : s'.rest = text ++ left')
    (hend : u.rest = [] → left' = [])
    (hinStep : ∀ {before after : List Piece} {v v' : Scan} {passed ahead : List Char}
      {rule : Rule} {m : Match}, Run table s before v → Run table v after u → Twin v v' →
      v.mode.select v.rest = some (rule, m) → text = passed ++ (m.lexeme ++ ahead) →
      v.rest = m.lexeme ++ ahead ++ u.rest → v'.rest = m.lexeme ++ ahead ++ left' →
      InStep table table' rule m v v') :
    ∃ pieces' u', Run table' s' pieces' u' ∧ Twin u u' ∧ u'.rest = left' ∧
      List.Forall₂ Piece.Agrees pieces pieces' := by
  induction hrun using Run.induction_on_moves generalizing s' text with
  | refl =>
    obtain rfl : text = [] := by simpa using hrest
    exact ⟨[], s', .refl s', h, hrest', .nil⟩
  | @move s v moved more hmove hmore ih =>
    have hahead : ∃ ahead, v.rest = ahead ++ u.rest := hmore.exists_passed.imp fun _ h => h.1
    obtain ⟨moved', v', passed, ahead, hmove', hv, hagree, rfl, hleft, hleft'⟩ :=
      h.exists_move table' hmove hahead hrest hrest' hend fun hselect htext _ => by
        subst htext
        exact hinStep (.refl s) (hmove.run.trans hmore) h hselect (List.nil_append _).symm hrest
          hrest'
    obtain ⟨pieces', u', hrun', hu, hu', hagrees⟩ := ih hv hleft hleft'
      fun hbefore hafter htwin hselect htext => hinStep (hmove.run.trans hbefore) hafter htwin hselect
        (by rw [htext, List.append_assoc])
    exact ⟨moved' ++ pieces', u', hmove'.run.trans hrun', hu, hu', List.rel_append hagree hagrees⟩

/-! ## Runs from the same state -/

/-- What the later stages do to two scans that differ by their events at most. -/
theorem Alike.of_settles_settles (h : Alike t s') (hsettles : Settles table piece t u)
    (hsettles' : Settles table piece s' v) : Alike u v := by
  have hu := h.of_settles hsettles
  have hblocks : v.blocks = u.blocks := by
    by_cases hkind : piece.kind = .token .attributeName
    · have hcheck := hsettles'.checkMember hkind
      rw [h.blocks_eq, hsettles.checkMember hkind] at hcheck
      exact (Except.ok.inj hcheck).symm
    · rw [hsettles'.blocks_eq hkind, hsettles.blocks_eq hkind, h.blocks_eq]
  have hmemories := hu.memories
  rw [← hblocks] at hmemories
  cases hsettles' with
  | member | string | other =>
    exact ⟨hu.rest, hu.position, hmemories.modes, hmemories.blocks, hmemories.last,
      hmemories.afterBody, hmemories.isDone⟩

theorem Alike.symm (h : Alike s s') : Alike s' s := by
  refine ⟨h.rest.symm, h.position.symm, ?_, ?_, ?_, h.memories.afterBody.symm,
    h.memories.isDone.symm⟩
  · refine (h.memories.modes.imp fun activation activation' hsame => ?_).flip
    cases hsame with
    | block => exact .block
    | expression brackets => exact .expression brackets
    | body h => exact .body ⟨h.marker.symm, h.start.symm, h.indent.symm, h.names.symm⟩
    | string style raw line column line' column' =>
      exact .string style raw line' column' line column
  · rw [h.blocks_eq, funext Shift.frame_still, List.map_id']
  · have hlast := h.memories.last
    have hsame (token? : Option (Kind × Nat)) :
        token?.map (fun token => (token.1, token.2 + Shift.still.lines)) = token? := by
      cases token? <;> rfl
    rw [hsame] at hlast ⊢
    exact hlast.symm

/-- A run does not depend on the events in front of it. -/
theorem Alike.exists_run (hrun : Run table s pieces u) (h : Alike s s') :
    ∃ u', Run table s' pieces u' ∧ Alike u u' := by
  induction hrun generalizing s' with
  | refl s => exact ⟨s', .refl s', h⟩
  | quiet hs hstep _ ih =>
    obtain ⟨t', hstep', ht⟩ := h.exists_step none hstep
    obtain ⟨u', hrun', hu⟩ := ih ht
    exact ⟨u', .quiet (h.memories.isDone.trans hs) hstep' hrun', hu⟩
  | @piece s t v u piece pieces hs hstep hsettles _ ih =>
    obtain ⟨t', hstep', ht⟩ := h.exists_step (some piece) hstep
    obtain ⟨v', hsettles', -⟩ := Shift.exists_settles ht.memories (Shift.pieces_still piece) hsettles
      fun _ => rfl
    obtain ⟨u', hrun', hu⟩ := ih (ht.of_settles_settles hsettles hsettles')
    exact ⟨u', .piece (h.memories.isDone.trans hs) hstep' hsettles' hrun', hu⟩

/-- Of two runs from the same beginning, one goes on with the other. -/
theorem Run.compare (hbefore : Run table s' before v) (h : Alike s s')
    (hrun : Run table s pieces u) :
    (∃ after u', pieces = before ++ after ∧ Run table v after u' ∧ Alike u u') ∨
      ∃ after v', before = pieces ++ after ∧ Run table u after v' ∧ Alike v v' := by
  induction hbefore generalizing s pieces with
  | refl s' =>
    obtain ⟨u', hrun', hu'⟩ := h.exists_run hrun
    exact .inl ⟨pieces, u', rfl, hrun', hu'⟩
  | quiet hs' hstep' hmore' ih =>
    cases hrun with
    | refl =>
      obtain ⟨v', hrun', hv'⟩ := h.symm.exists_run (.quiet hs' hstep' hmore')
      exact .inr ⟨_, v', rfl, hrun', hv'⟩
    | quiet hs hstep hmore =>
      obtain ⟨t', hstep₁, ht⟩ := h.exists_step none hstep
      obtain ⟨rfl, -⟩ := Prod.mk.inj (hstep'.symm.trans hstep₁)
      exact ih ht hmore
    | piece hs hstep hsettles hmore =>
      obtain ⟨t', hstep₁, -⟩ := h.exists_step (some _) hstep
      cases hstep'.symm.trans hstep₁
  | piece hs' hstep' hsettles' hmore' ih =>
    cases hrun with
    | refl =>
      obtain ⟨v', hrun', hv'⟩ := h.symm.exists_run (.piece hs' hstep' hsettles' hmore')
      exact .inr ⟨_, v', rfl, hrun', hv'⟩
    | quiet hs hstep hmore =>
      obtain ⟨t', hstep₁, -⟩ := h.exists_step none hstep
      cases hstep'.symm.trans hstep₁
    | piece hs hstep hsettles hmore =>
      obtain ⟨t', hstep₁, ht⟩ := h.exists_step (some _) hstep
      obtain ⟨rfl, hsame⟩ := Prod.mk.inj (hstep'.symm.trans hstep₁)
      obtain rfl := Except.ok.inj (Option.some.inj hsame)
      rcases ih (ht.of_settles_settles hsettles hsettles') hmore with
        ⟨after, u', rfl, hafter, hu'⟩ | ⟨after, v', rfl, hafter, hv'⟩
      · exact .inl ⟨after, u', rfl, hafter, hu'⟩
      · exact .inr ⟨after, v', rfl, hafter, hv'⟩

/-- A run to the end passes every state to which a run from the same beginning comes. -/
theorem Run.resume (hbefore : Run table s' before v) (h : Alike s s')
    (hrun : Run table s pieces u) (hu : u.isDone = true) :
    ∃ after u', pieces = before ++ after ∧ Run table v after u' ∧ Alike u u' := by
  rcases hbefore.compare h hrun with hresumed | ⟨after, v', rfl, hafter, hv'⟩
  · exact hresumed
  · obtain ⟨rfl, rfl⟩ := hafter.eq_of_isDone hu
    exact ⟨[], v, by rw [List.append_nil, List.append_nil], .refl v, hv'.symm⟩

/-- A move reads something, as long as there is something to read. -/
theorem Move.length_lt {moved : List Piece} (h : Move table s moved t) (hrest : s.rest ≠ []) :
    t.rest.length < s.rest.length := by
  cases h with
  | quiet hs hstep => exact (step_quiet table hstep).1
  | piece hs hstep hsettles =>
    rw [hsettles.rest_eq]
    rcases exists_of_step (some _) hstep with ⟨hnil, -⟩ | ⟨rule, m, a, left, hselect, hleft, -, -,
      rfl, -⟩
    · exact absurd hnil hrest
    · have hlexeme := List.length_pos_iff.2 (Mode.select_lexeme_ne_nil hselect)
      rw [hleft, List.length_append]
      omega

/-- A run leaves no more to read. -/
theorem Run.length_le (hrun : Run table s pieces t) : t.rest.length ≤ s.rest.length := by
  obtain ⟨passed, hpassed, -⟩ := hrun.exists_passed
  rw [hpassed, List.length_append]
  exact Nat.le_add_left _ _

/-- A move that leaves something to read does not end the scan. -/
theorem Move.isDone_of_rest {moved : List Piece} (h : Move table s moved t) (hs : s.isDone = false)
    (hrest : s.rest ≠ []) : t.isDone = false := by
  cases h with
  | quiet _ hstep => exact (step_quiet table hstep).2.trans hs
  | piece _ hstep hsettles => exact hsettles.same.2.2.trans (isDone_of_step hs hrest hstep)

/-- A run that leaves something to read has not come to its end. -/
theorem Run.isDone_of_rest (hrun : Run table s pieces t) (hs : s.isDone = false)
    (hrest : t.rest ≠ []) : t.isDone = false := by
  induction hrun using Run.induction_on_moves with
  | refl => exact hs
  | move hmove hmore ih =>
    refine ih (hmove.isDone_of_rest hs fun hnil => hrest ?_)
    obtain ⟨passed, hpassed, -⟩ := (hmove.run.trans hmore).exists_passed
    exact (List.append_eq_nil_iff.1 (hpassed.symm.trans hnil)).2

/-- A run that reads nothing, although there is something to read, stays where it is. -/
theorem Run.eq_of_length_le (hrun : Run table s pieces t) (hrest : s.rest ≠ [])
    (hle : s.rest.length ≤ t.rest.length) : pieces = [] ∧ t = s := by
  induction hrun using Run.induction_on_moves with
  | refl => exact ⟨rfl, rfl⟩
  | move hmove hmore _ =>
    have hlt := hmove.length_lt hrest
    have hleft := hmore.length_le
    omega

/-- From a state that a run has come to it is on to a state with less to read. -/
theorem Run.exists_between (hbefore : Run table s before v) (hrun : Run table s pieces u)
    (hrest : u.rest ≠ []) (hle : u.rest.length ≤ v.rest.length) :
    ∃ after u', pieces = before ++ after ∧ Run table v after u' ∧ Alike u u' := by
  rcases hbefore.compare (.refl s) hrun with hresumed | ⟨after, v', rfl, hafter, hv'⟩
  · exact hresumed
  · obtain ⟨rfl, rfl⟩ := hafter.eq_of_length_le hrest (hv'.rest ▸ hle)
    exact ⟨[], v, by rw [List.append_nil, List.append_nil], .refl v, hv'.symm⟩

/-- From a state that a run has come to it is on to every state on a later line. -/
theorem Run.exists_behind (hbefore : Run table s before v) (hrun : Run table s pieces u)
    (hlt : v.position.line < u.position.line) :
    ∃ after u', pieces = before ++ after ∧ Run table v after u' ∧ Alike u u' := by
  rcases hbefore.compare (.refl s) hrun with hresumed | ⟨after, v', -, hafter, hv'⟩
  · exact hresumed
  · have hle := line_le_of_run hafter
    rw [hv'.position] at hle
    exact absurd hle (Nat.not_le_of_lt hlt)

/-! ## What is left of a run -/

/-- The pieces that a scan still yields on its way to the end. -/
def Finishes (table : LineTable) (s : Scan) (pieces : List Piece) : Prop :=
  ∃ u, Run table s pieces u ∧ u.isDone = true

/-- The tokens to which a scan leads that has yielded some pieces. -/
def LeadsTo (table : LineTable) (before : List Piece) (s : Scan) (tokens : List Token) : Prop :=
  ∃ after, Finishes table s after ∧ Assembled (before ++ after) tokens

theorem Finishes.of_alike (hfinishes : Finishes table s pieces) (h : Alike s s') :
    Finishes table s' pieces := by
  obtain ⟨u, hrun, hu⟩ := hfinishes
  obtain ⟨u', hrun', hu'⟩ := h.exists_run hrun
  exact ⟨u', hrun', hu'.memories.isDone.trans hu⟩

/-- A run that does not come to the end is the beginning of every one that does. -/
theorem Run.finishes_iff (hrun : Run table s before t) :
    Finishes table s pieces ↔ ∃ after, pieces = before ++ after ∧ Finishes table t after := by
  constructor
  · rintro ⟨u, hfull, hu⟩
    obtain ⟨after, u', hpieces, hafter, hu'⟩ := hrun.resume (.refl s) hfull hu
    exact ⟨after, hpieces, u', hafter, hu'.memories.isDone.trans hu⟩
  · rintro ⟨after, rfl, u, hafter, hu⟩
    exact ⟨u, hrun.trans hafter, hu⟩

/-- A run leads to the same tokens as the scan that it begins with. -/
theorem Run.leadsTo_iff (hrun : Run table s pieces t) :
    LeadsTo table before s tokens ↔ LeadsTo table (before ++ pieces) t tokens := by
  unfold LeadsTo
  constructor
  · rintro ⟨_, hfinishes, hassembled⟩
    obtain ⟨after, rfl, hafter⟩ := hrun.finishes_iff.1 hfinishes
    exact ⟨after, hafter, by rwa [List.append_assoc]⟩
  · rintro ⟨after, hafter, hassembled⟩
    exact ⟨pieces ++ after, hrun.finishes_iff.2 ⟨after, rfl, hafter⟩, by rwa [← List.append_assoc]⟩

/-- So do two scans that yield the same up to the end. -/
theorem leadsTo_congr (h : ∀ pieces, Finishes table s pieces ↔ Finishes table t pieces) :
    LeadsTo table before s tokens ↔ LeadsTo table before t tokens :=
  exists_congr fun pieces => and_congr_left fun _ => h pieces

end Scan

end BlockLexer
