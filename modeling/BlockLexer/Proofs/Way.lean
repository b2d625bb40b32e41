import BlockLexer.Proofs.OpenBodies

/-!
# Scans on their way

A scan on its way through a text keeps several promises at once.  This module puts them
together, and takes runs apart piece by piece.

* `Scan.StandsIn.line_le`: as long as something is left, a scan is on a line of its text.
* `Scan.OnWay` is what holds of a scan of a text as long as there is no fault, and
  `Scan.OnWay.run` says that a run keeps it.
* `Scan.Run.uncons`, `Scan.Run.uncons_string` and `Scan.Run.split` take a run apart at its
  pieces, and `Scan.Run.exists_passed` is what it reads.
* `Scan.Run.modes_of_parts`: a string stays open as long as parts of it are yielded.
-/

namespace BlockLexer

open Text

namespace Scan

variable {table : LineTable} {text : List Char} {s t u : Scan} {pieces more : List Piece}
  {piece : Piece}

/-! ## The place of a scan -/

/-- An end of a text whose last line is closed is such a text. -/
theorem closed_of_suffix {cs : List Char} (h : cs <:+ text)
    (hclosed : text = [] ∨ text.getLast? = some '\n') : cs = [] ∨ cs.getLast? = some '\n' := by
  obtain ⟨passed, htext⟩ := h
  rcases hclosed with hnil | hlast
  · exact .inl (List.append_eq_nil_iff.1 (htext.trans hnil)).2
  · by_cases hrest : cs = []
    · exact .inl hrest
    · rw [← htext, List.getLast?_append_of_ne_nil _ hrest] at hlast
      exact .inr hlast

/-- So is what is left of it. -/
theorem StandsIn.closed_rest (h : StandsIn text s)
    (hclosed : text = [] ∨ text.getLast? = some '\n') :
    s.rest = [] ∨ s.rest.getLast? = some '\n' := by
  obtain ⟨passed, htext, -⟩ := h
  exact closed_of_suffix ⟨passed, htext.symm⟩ hclosed

theorem StandsIn.line_pos (h : StandsIn text s) : 0 < s.position.line := by
  obtain ⟨passed, -, hposition⟩ := h
  rw [hposition, Position.line_after]
  show 0 < 1 + _
  omega

/-- As long as something is left, the scan is on a line of the text. -/
theorem StandsIn.line_le (h : StandsIn text s) (hclosed : text = [] ∨ text.getLast? = some '\n')
    (hrest : s.rest ≠ []) : s.position.line ≤ (splitLines text).length := by
  have hfeed : '\n' ∈ s.rest :=
    List.mem_of_getLast? ((h.closed_rest hclosed).resolve_left hrest)
  have hpos := List.count_pos_iff.2 hfeed
  have hlines : text.count '\n' = (splitLines text).length := by
    conv_lhs => rw [← unlines_splitLines_of_closed hclosed]
    exact count_unlines fun line hline => lineFeed_not_mem_of_mem_splitLines hline
  obtain ⟨passed, htext, hposition⟩ := h
  have hcount := congrArg (List.count '\n') htext
  rw [List.count_append] at hcount
  rw [hposition, Position.line_after, ← hlines, hcount]
  show 1 + _ ≤ _
  omega

/-- The name of an attribute is on the line of the scan and opens an expression. -/
theorem Effect.of_attributeName (he : Effect table s t (some piece))
    (hkind : piece.kind = .token .attributeName) :
    piece.span.line = s.position.line ∧ s.mode = .block ∧
      t.modes = .expression {} :: s.modes := by
  cases he.delimits hkind rfl with
  | expressionOpens hline hmode hmodes => exact ⟨hline, hmode, hmodes⟩

theorem line_of_attributeName (hs : s.isDone = false)
    (hstep : s.step table = (t, some (.ok piece))) (hkind : piece.kind = .token .attributeName) :
    piece.span.line = s.position.line := by
  rcases effect_of_step hs hstep with ⟨-, hend, -⟩ | ⟨-, he, -⟩
  · cases hend.symm.trans hkind
  · exact (he.of_attributeName hkind).1

/-- A step that is not at the end of the text does not end the scan. -/
theorem isDone_of_step (hs : s.isDone = false) (hrest : s.rest ≠ [])
    (hstep : s.step table = (t, some (.ok piece))) : t.isDone = false := by
  rcases effect_of_step hs hstep with ⟨-, -, rfl⟩ | ⟨ht, -, -⟩
  · rcases exists_of_step (some piece) hstep with ⟨hnil, -⟩ | ⟨rule, m, -, left, hselect, hleft, -,
      -, hmoved, -⟩
    · exact absurd hnil hrest
    · have hlength := congrArg List.length (hleft.trans (congrArg (m.lexeme ++ ·) hmoved.symm))
      rw [List.length_append] at hlength
      have hpos := List.length_pos_iff.2 (Mode.select_lexeme_ne_nil hselect)
      have hsame : s.rest.length = m.lexeme.length + s.rest.length := hlength
      omega
  · exact ht

/-- The effect of a step that is not at the end of the text. -/
theorem effect_of_rest (piece? : Option Piece) (hs : s.isDone = false) (hrest : s.rest ≠ [])
    (hstep : s.step table = (t, piece?.map Except.ok)) : Effect table s t piece? := by
  cases piece? with
  | none => exact (effect_of_step_quiet hstep).1
  | some piece =>
    have ht := isDone_of_step hs hrest hstep
    rcases effect_of_step hs hstep with ⟨-, -, rfl⟩ | ⟨-, he, -⟩
    · cases ht
    · exact he

/-! ## Scans on their way -/

/-- What holds of a scan of a text as long as there is no fault. -/
structure OnWay (table : LineTable) (text : List Char) (s : Scan) : Prop where
  stands : StandsIn text s
  bodies : HoldsBodies table s
  stacked : Stacked s.blocks.length s.modes

theorem onWay_of_start (table : LineTable) (hrest : s.rest = text) (hposition : s.position = {})
    (hmodes : s.modes = []) (hblocks : s.blocks = []) : OnWay table text s := by
  refine ⟨standsIn_of_start hrest hposition, holdsBodies_of_start table hmodes, ?_⟩
  have hnested : Nested table [] s := nested_of_start hmodes hblocks
  exact hnested.stacked

/-- A step keeps what holds of a scan. -/
theorem OnWay.step (piece? : Option Piece) (hnumbered : table.Numbered)
    (h : OnWay table text s) (hs : s.isDone = false)
    (hstep : s.step table = (t, piece?.map Except.ok)) : OnWay table text t := by
  have hstands := standsIn_of_step piece? h.stands hstep
  have ofEffect (he : Effect table s t piece?) : OnWay table text t :=
    ⟨hstands, holdsBodies_of_step piece? hnumbered h.stacked he hstep h.bodies,
      stacked_of_effect he h.stacked⟩
  cases piece? with
  | none => exact ofEffect (effect_of_step_quiet hstep).1
  | some piece =>
    rcases effect_of_step hs hstep with ⟨-, -, rfl⟩ | ⟨-, he, -⟩
    · exact ⟨hstands, h.bodies, h.stacked⟩
    · exact ofEffect he

theorem OnWay.settles (h : OnWay table text s) (hsettles : Settles table piece s t) :
    OnWay table text t := by
  have hlength : t.blocks.length = s.blocks.length := by
    simpa using congrArg List.length (map_header_of_settles hsettles)
  refine ⟨h.stands.of_place hsettles.place_eq, ?_, ?_⟩
  · intro body outer hmodes
    rw [hsettles.same.1] at hmodes
    rw [hsettles.position_eq]
    exact h.bodies body outer hmodes
  · rw [hlength, hsettles.same.1]
    exact h.stacked

/-- A run keeps what holds of a scan. -/
theorem OnWay.run (hnumbered : table.Numbered) (hrun : Run table s pieces t)
    (h : OnWay table text s) : OnWay table text t := by
  induction hrun with
  | refl s => exact h
  | quiet hs hstep _ ih => exact ih (h.step none hnumbered hs hstep)
  | piece hs hstep hsettles _ ih => exact ih ((h.step (some _) hnumbered hs hstep).settles hsettles)

/-- Behind a step that yields a piece no body is open. -/
theorem OnWay.not_body_of_step (h : OnWay table text s) (hs : s.isDone = false)
    (hstep : s.step table = (t, some (.ok piece))) (body : OpenBody) (outer : List Activation) :
    t.modes ≠ .body body :: outer := by
  intro hmodes
  rcases effect_of_step hs hstep with ⟨hend, -, rfl⟩ | ⟨-, he, -⟩
  · cases hend.symm.trans hmodes
  by_cases hin : ∃ body' outer', s.modes = .body body' :: outer'
  · obtain ⟨body', outer', hin⟩ := hin
    obtain ⟨-, ⟨-, hnone, -⟩ | ⟨closed, -, hleft, -⟩⟩ := step_in_body (some piece) hin hstep
    · cases hnone
    · have hstacked := h.stacked
      rw [hin, ← hleft, hmodes] at hstacked
      exact hstacked.not_body_below
  · obtain ⟨hnone, -⟩ := he.opens_body h.stacked (fun outer' hout => hin ⟨body, outer', hout⟩) hmodes
    cases hnone

/-! ## Runs piece by piece -/

/-- The first piece of a run, the step that yields it, and the run behind it. -/
theorem Run.uncons (hrun : Run table s (piece :: more) u) :
    ∃ m t v, Run table s [] m ∧ m.isDone = false ∧ m.step table = (t, some (.ok piece)) ∧
      Settles table piece t v ∧ Run table v more u := by
  generalize hall : piece :: more = all at hrun
  induction hrun with
  | refl s => cases hall
  | quiet hs hstep _ ih =>
    obtain ⟨m, t, v, hquiet, hrest⟩ := ih hall
    exact ⟨m, t, v, .quiet hs hstep hquiet, hrest⟩
  | piece hs hstep hsettles hrest =>
    obtain ⟨rfl, rfl⟩ := List.cons.inj hall
    exact ⟨_, _, _, .refl _, hs, hstep, hsettles, hrest⟩

/-- A run over some pieces and then others. -/
theorem Run.split (hrun : Run table s (pieces ++ more) u) :
    ∃ m, Run table s pieces m ∧ Run table m more u := by
  induction pieces generalizing s with
  | nil => exact ⟨s, .refl s, hrun⟩
  | cons piece pieces ih =>
    obtain ⟨m, t, v, hquiet, hm, hstep, hsettles, hrest⟩ := Run.uncons hrun
    obtain ⟨w, hrun', hrest'⟩ := ih hrest
    exact ⟨w, hquiet.trans (.piece hm hstep hsettles hrun'), hrest'⟩

/-- The first pieces of a run, if they are a string: the steps that yield its quotes, and the
runs between and behind them. -/
theorem Run.uncons_string {start stop : Piece} {parts : List Piece}
    (hrun : Run table s (start :: parts ++ [stop] ++ more) u) :
    ∃ m t v m' t' v', Run table s [] m ∧ m.isDone = false ∧
      m.step table = (t, some (.ok start)) ∧ Settles table start t v ∧ Run table v parts m' ∧
      m'.isDone = false ∧ m'.step table = (t', some (.ok stop)) ∧ Settles table stop t' v' ∧
      Run table v' more u := by
  rw [List.cons_append, List.cons_append, List.append_assoc] at hrun
  obtain ⟨m, t, v, hquiet, hm, hopen, hsettles, hrun⟩ := Run.uncons hrun
  obtain ⟨w, hinner, hrun⟩ := Run.split hrun
  obtain ⟨m', t', v', hquiet', hm', hclose, hsettles', hrest⟩ := Run.uncons hrun
  have hparts : Run table v parts m' := by
    rw [← List.append_nil parts]
    exact hinner.trans hquiet'
  exact ⟨m, t, v, m', t', v', hquiet, hm, hopen, hsettles, hparts, hm', hclose, hsettles', hrest⟩

/-- A run reads on from where it begins. -/
theorem Run.exists_passed (hrun : Run table s pieces t) :
    ∃ passed, s.rest = passed ++ t.rest ∧ t.position = s.position.after passed := by
  have ofStep (piece? : Option Piece) {s t : Scan}
      (hstep : s.step table = (t, piece?.map Except.ok)) :
      ∃ passed, s.rest = passed ++ t.rest ∧ t.position = s.position.after passed := by
    rcases exists_of_step piece? hstep with ⟨-, rfl, -⟩ | ⟨rule, m, a, left, -, hrest, -, -, rfl,
      hmoved⟩
    · exact ⟨[], rfl, rfl⟩
    · exact ⟨m.lexeme, hrest, hmoved⟩
  have join {s t u : Scan} {cs ds : List Char} (hs : s.rest = cs ++ t.rest)
      (hs' : t.position = s.position.after cs) (ht : t.rest = ds ++ u.rest)
      (ht' : u.position = t.position.after ds) :
      ∃ passed, s.rest = passed ++ u.rest ∧ u.position = s.position.after passed := by
    refine ⟨cs ++ ds, ?_, ?_⟩
    · rw [hs, ht, List.append_assoc]
    · rw [ht', hs', Position.after_append]
  induction hrun with
  | refl s => exact ⟨[], rfl, rfl⟩
  | quiet hs hstep _ ih =>
    obtain ⟨cs, hrest, hmoved⟩ := ofStep none hstep
    obtain ⟨ds, hrest', hmoved'⟩ := ih
    exact join hrest hmoved hrest' hmoved'
  | @piece s t t' u piece pieces hs hstep hsettles _ ih =>
    obtain ⟨cs, hrest, hmoved⟩ := ofStep (some piece) hstep
    obtain ⟨ds, hrest', hmoved'⟩ := ih
    exact join hrest hmoved (hsettles.rest_eq ▸ hrest') (hsettles.position_eq ▸ hmoved')

/-- As long as a run yields parts of a string, the string stays open. -/
theorem Run.modes_of_parts {style : QuoteStyle} {raw : Bool} {line column : Nat}
    {outer : List Activation} (hrun : Run table s pieces t)
    (hparts : ∀ part ∈ pieces, part.kind.IsPart)
    (hmodes : s.modes = .string style raw line column :: outer) :
    t.modes = .string style raw line column :: outer := by
  induction hrun with
  | refl s => exact hmodes
  | quiet hs hstep _ ih =>
    cases (effect_of_step_quiet hstep).1 with
    | still _ hsame => exact ih hparts (hsame.trans hmodes)
    | bodyOpens hblock => cases hblock.symm.trans (mode_eq_string hmodes)
  | @piece s t t' u piece pieces hs hstep hsettles _ ih =>
    obtain ⟨hpart, hparts⟩ := List.forall_mem_cons.1 hparts
    rcases effect_of_step hs hstep with ⟨-, hkind, -⟩ | ⟨-, he, -⟩
    · exact absurd hkind (hpart.ne_token _)
    cases he with
    | still _ hsame =>
      apply ih hparts
      rw [hsettles.same.1, hsame, hmodes]
    | stringOpens hkind => rw [hkind] at hpart; cases hpart
    | stringCloses hkind => exact absurd hkind hpart.ne_stringEnd
    | membersBegin _ hkind | named hkind | blockOpens hkind | blockCloses hkind
    | expressionOpens hkind | expressionCloses hkind | bodyCloses hkind | term hkind
    | bracketTurns hkind => exact absurd hkind (hpart.ne_token _)

end Scan

end BlockLexer
