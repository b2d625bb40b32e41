import BlockLexer.Proofs.Emptied
import BlockLexer.Proofs.Settled

/-!
# Suppressed imports

Where imports are not followed, a scan skips them.  The line table does not know that, and
takes their lines for content: a header takes the indentation of its members from such a line,
and a body ends in front of it.  Apart from that, a skipped line might as well be empty.

* `Source.HeadersSeeMembers` and `Source.BodiesSeeEnds` say that neither happens, or that it does
  no harm.
* `Scan.Beside.exists_move`: up to the next line that is skipped both scans make the same moves, and
  `Scan.Beside.exists_cut` is the line itself.
* `Source.Empties.meanings_tokens` goes from one skipped line to the next, and
  `meanings_tokenize_of_emptied` is about texts.
* `Scan.states` are all states of a scan, for sources that are given.
-/

namespace BlockLexer

open Text Files Import

/-! ## Tables that are misled -/

namespace Source

/-- The line behind a header from which the indentation of its members is taken is no import
that is skipped, or it makes no difference: no member comes, or the first one is indented like
the import. -/
def HeadersSeeMembers (source source' : Source) : Prop :=
  ∀ s m, source.ComesTo s → s.mode.select s.rest = some (.headerNewline, m) →
    s.followsHeader = true → ∀ line' ∈ source'.table.nextContentAfter s.position.line,
      line'.isEnd = true ∨
        ∃ line ∈ source.table.nextContentAfter s.position.line, line.indent = line'.indent

/-- Where a body ends in front of an import that is skipped, it ends in front of the next line
as well that is not blank: this is no marker, it stands left of the body, and there are only
blanks between. -/
def BodiesSeeEnds (source source' : Source) : Prop :=
  ∀ s body outer, source.ComesTo s → s.modes = .body body :: outer →
    source.SkipsLine (s.position.line + 1) →
      ∀ ahead ∈ (source'.table.lines.drop s.position.line).find? (fun line => !line.isBlank),
        ahead.isMarker = false ∧ ahead.indent < body.indent ∧
          ∀ line ∈ (source'.table.lines.drop s.position.line).takeWhile Line.isBlank,
            ∀ c ∈ line.chars, isBlank c = true

end Source

/-- An import is skipped between blocks and in them. -/
theorem Mode.of_select_directive {mode : Mode} {cs : List Char} {m : Match}
    (h : mode.select cs = some (.directive, m)) : mode = .default ∨ mode = .block := by
  have hmem := Scan.mem_rules_of_select h
  cases mode with
  | default => exact .inl rfl
  | block => exact .inr rfl
  | expression => simp [rules] at hmem
  | body => cases List.mem_singleton.1 hmem
  | string style =>
    rw [rules] at hmem
    split at hmem <;> simp at hmem

namespace Scan

variable {moved : List Piece} {v w : Scan} {rule : Rule} {m m' : Match}

/-- An import is not skipped behind the text of a string. -/
theorem Move.not_runsOn {table : LineTable} (hmove : Move table v moved w)
    (hselect : v.mode.select v.rest = some (rule, m))
    (hnext : w.mode.select w.rest = some (.directive, m')) : ¬rule.RunsOn := by
  rintro ⟨style, rfl, -⟩
  obtain ⟨rule', m'', a, piece?, hselect', hact, hmodes, -⟩ :=
    hmove.exists_of_rest (Mode.ne_nil_of_select hselect)
  obtain ⟨rfl, rfl⟩ := Prod.mk.inj (Option.some.inj (hselect.symm.trans hselect'))
  obtain ⟨rfl, -⟩ := Prod.mk.inj hact
  have hmode : v.mode = .string style := Mode.eq_of_mem_rules (mem_rules_of_select hselect) rfl
  rw [show w.mode = v.mode from congrArg modeOf hmodes, hmode] at hnext
  rcases Mode.of_select_directive hnext with hstring | hstring <;> cases hstring

end Scan

namespace Source.SkipsAt

variable {source source' : Source} {n : Nat} {m : Match} {t : Scan}

/-- What is left there are the line and those behind it. -/
theorem rest_eq (h : source.Empties source') (ht : source.SkipsAt (n + 1) m t) :
    t.rest = unlines ((splitLines source.text).drop n) := by
  rw [(h.onWay ht.comes).stands.rest_eq_unlines h.closed ht.takes.1, ht.line, Nat.add_sub_cancel]

theorem lt_length (h : source.Empties source') (ht : source.SkipsAt (n + 1) m t) :
    n < (splitLines source.text).length := by
  by_contra hge
  have hnil := ht.rest_eq h
  rw [List.drop_eq_nil_of_le (Nat.le_of_not_lt hge)] at hnil
  exact Mode.ne_nil_of_select ht.select hnil

end Source.SkipsAt

/-! ## Bodies -/

namespace Scan

variable {source source' : Source} {behind : Nat} {before before' moved : List Piece}
  {v v' w w' : Scan} {body body' : OpenBody} {outer outer' : List Activation}
  {closed : ClosedBody} {front more : List Char} {above below : List Line} {ahead : Line}

/-- A body that ends in front of a skipped import ends with the same text in front of a line
behind the blank lines. -/
theorem Beside.exists_closed (h : source.Empties source')
    (hb : Beside source source' behind before before' v v')
    (hclear : ∀ k, behind < k → k ≤ v.position.line → ¬source.SkipsLine k)
    (hskips : source.SkipsLine (v.position.line + 1)) (hmodes : v.modes = .body body :: outer)
    (hbodies : Shift.loose.Bodies body body')
    (hclosed : body.step source.table v.position.line = some closed)
    (hlines : source'.table.lines.drop v.position.line = above ++ ahead :: below)
    (hblank : ∀ line ∈ above, line.isBlank = true) (hfilled : ahead.isBlank = false)
    (hmarker : ahead.isMarker = false) (hindent : ahead.indent < body.indent) :
    ∃ closed', body'.step source'.table (v.position.line + above.length) = some closed' ∧
      Shift.loose.Closings closed closed' := by
  have hsame : body'.marker = body.marker := hbodies.marker
  have hle : body.marker ≤ v.position.line := ((h.onWay ⟨_, hb.run⟩).bodies body outer hmodes).le
  have hopens : behind < body.marker := hb.opens body outer hmodes
  obtain ⟨line, hline, hdirective⟩ := h.exists_directive hskips
  have hcontent : line.isBlank = false := by
    rw [Line.isBlank, Line.hasContent_of_directive hdirective]
    rfl
  rw [OpenBody.step_of_filled hline (Line.isMarker_of_directive hdirective) hcontent] at hclosed
  obtain ⟨-, hclosed⟩ := Option.ite_none_right_eq_some.1 hclosed
  obtain rfl := Option.some.inj hclosed
  -- Both bodies end with the same line.
  have hlast : OpenBody.lastFilled source'.table body'.marker (v.position.line + above.length) =
      OpenBody.lastFilled source.table body.marker v.position.line := by
    rw [hsame, OpenBody.lastFilled_of_blanks hle hlines hblank]
    exact OpenBody.lastFilled_of_rel fun k hk hk' =>
      resembles_of_rel (h.get?_same (hclear k (Nat.lt_trans hopens hk) hk'))
  have hahead : source'.table.get? (v.position.line + above.length + 1) = some ahead := by
    rw [LineTable.get?_succ, ← List.getElem?_drop, hlines,
      List.getElem?_append_right (Nat.le_refl _), Nat.sub_self, List.getElem?_cons_zero]
  rw [← show body'.indent = body.indent from hbodies.indent] at hindent
  refine ⟨_, (OpenBody.step_of_filled hahead hmarker hfilled).trans (if_pos hindent), ?_⟩
  rw [hlast, hsame]
  refine Shift.closings_loose h.tabWidth_eq hbodies fun k hk hk' => h.get?_same (hclear k
    (Nat.lt_trans hopens hk) (Nat.le_trans hk' (OpenBody.lastFilled_le _ _ _)))

/-- A body takes what is left of its line. -/
theorem exists_front_of_body (h : source.Empties source') {ahead : List Char}
    (hv : source.ComesTo v) (hmodes : v.modes = .body body :: outer)
    (hmove : Move source.table v moved w) (hne : ahead ≠ [])
    (hle : v.position.line ≤ (splitLines source.text).length)
    (hrest : v.rest = ahead ++ unlines ((splitLines source.text).drop v.position.line)) :
    ∃ front, '\n' ∉ front ∧ ahead = front ++ ['\n'] ∧
      w.rest = unlines ((splitLines source.text).drop v.position.line) := by
  have hway := h.onWay hv
  obtain ⟨-, front, more, rfl, hfront⟩ := hway.stands.exists_lineFeed h.closed hle hrest hne
  rw [List.append_assoc, List.cons_append] at hrest
  have hselect := select_bodyLine hmodes hfront hrest
  obtain ⟨rule, m, a, piece?, hselect', -, -, hcut, hmoved⟩ :=
    hmove.exists_of_rest (Mode.ne_nil_of_select hselect)
  obtain ⟨rfl, rfl⟩ := Prod.mk.inj (Option.some.inj (hselect.symm.trans hselect'))
  rw [hrest, List.append_cons front, List.append_cancel_left_eq] at hcut
  have hw := (hway.run h.numbered hmove.run).stands.rest_eq_unlines h.closed (by
    rw [hmoved, Position.after_append]
    rfl)
  have hline : w.position.line - 1 = v.position.line := by
    rw [hmoved, Position.line_after, List.count_append, List.count_eq_zero.2 hfront]
    rfl
  rw [hline] at hw
  rw [hw] at hcut
  obtain rfl : more = [] := List.append_cancel_right (hcut.trans (List.nil_append _).symm)
  exact ⟨front, hfront, rfl, hw⟩

/-- Two scans behind the same line of their bodies are twins, if their surroundings are. -/
theorem BehindBody.twin {left left' : List Char} {taken : List Char} (hb : Twin v v')
    (hbehind : BehindBody outer v.blocks left w) (hbehind' : BehindBody outer' v'.blocks left' w')
    (houter : List.Forall₂ Shift.loose.Activations outer outer')
    (hposition : w.position = v.position.after taken)
    (hposition' : w'.position = v'.position.after taken) : Twin w w' := by
  refine ⟨?_, ?_, ?_, ?_, ?_, ?_⟩
  · rw [hposition, hposition']
    exact hb.positions.after_of_zero taken
  · rw [hbehind.modes, hbehind'.modes]
    exact houter
  · rw [hbehind.blocks_eq, hbehind'.blocks_eq, Shift.frame_loose, List.map_id]
    exact hb.blocks_eq
  · rw [hbehind.header, hbehind'.header]
    rfl
  · exact hbehind'.afterBody.trans hbehind.afterBody.symm
  · exact hbehind'.goes.trans hbehind.goes.symm

/-- A scan behind a line of its body is still on its way. -/
theorem BehindBody.onWay {table : LineTable} {text left taken : List Char} (hway : OnWay table text v)
    (hmodes : v.modes = .body body :: outer) (hbehind : BehindBody outer v.blocks left w)
    (hrest : v.rest = taken ++ left) (hposition : w.position = v.position.after taken) :
    OnWay table text w := by
  have hstacked := hway.stacked
  rw [hmodes] at hstacked
  obtain ⟨hpos, houter⟩ := hstacked.of_body
  obtain ⟨passed, htext, hpassed⟩ := hway.stands
  refine ⟨⟨passed ++ taken, ?_, ?_⟩, fun body' outer' hmodes' => ?_, ?_⟩
  · rw [hbehind.rest, htext, hrest, List.append_assoc]
  · rw [hposition, hpassed, Position.after_append]
  · rw [hbehind.modes, houter] at hmodes'
    cases List.eq_of_mem_replicate (hmodes' ▸ List.mem_cons_self)
  · rw [hbehind.modes, hbehind.blocks_eq]
    exact .blocks houter

/-- The second scan yields a body that agrees with the first one, whatever it has to read for it:
blank lines in front of the line that ends the body make no difference. -/
theorem Beside.exists_agrees_of_body (h : source.Empties source')
    (hb : Beside source source' behind before before' v v')
    (hclear : ∀ k, behind < k → k ≤ v.position.line → ¬source.SkipsLine k)
    (hskips : source.SkipsLine (v.position.line + 1)) (hends : source.BodiesSeeEnds source')
    (hmodes : v.modes = .body body :: outer) (hmodes' : v'.modes = .body body' :: outer')
    (hbodies : Shift.loose.Bodies body body') (hmode' : modeOf outer' = .block)
    (hclosed : body.step source.table v.position.line = some closed) (hfront : '\n' ∉ front)
    (hrest' : v'.rest =
      front ++ '\n' :: unlines ((splitLines source'.text).drop v.position.line))
    (hbehind' : BehindBody outer' v'.blocks
      (unlines ((splitLines source'.text).drop v.position.line)) w')
    (hposition' : w'.position = v'.position.after (front ++ ['\n'])) :
    ∃ piece', closed.piece.Agrees piece' ∧ ∀ tokens, LeadsTo source'.table before' v' tokens ↔
      LeadsTo source'.table (before' ++ [piece']) w' tokens := by
  have hgoes' : v'.isDone = false := hb.twin.memories.isDone.trans hb.goes
  have hchars : (splitLines source'.text).drop v.position.line =
      (source'.table.lines.drop v.position.line).map Line.chars := by
    rw [List.map_drop, h.table', LineTable.map_chars_ofText]
  cases hfind : (source'.table.lines.drop v.position.line).find? (fun line => !line.isBlank) with
  | none =>
    -- Only blank lines are left, and the second text does not come to its end any more.
    have hblank : ∀ line ∈ source'.table.lines.drop v.position.line, line.isBlank = true := by
      simpa using List.find?_eq_none.1 hfind
    refine ⟨closed.piece, ⟨rfl, rfl, rfl, fun _ => rfl⟩, fun tokens => iff_of_false ?_ ?_⟩
    · exact not_leadsTo_of_body hmodes' hgoes' (hb.twin.line_eq ▸ hblank)
    · refine hbehind'.not_leadsTo hmode' fun chars hmem => ?_
      have hfree := lineFeed_not_mem_of_mem_splitLines (List.mem_of_mem_drop hmem)
      rw [hchars, List.mem_map] at hmem
      obtain ⟨line, hline, rfl⟩ := hmem
      exact ⟨hfree, Line.isIdle_of_hasContent (Line.hasContent_of_isBlank (hblank line hline))⟩
  | some ahead =>
    obtain ⟨hfilled, above, below, hlines, habove⟩ := List.find?_eq_some_iff_append.1 hfind
    obtain ⟨hmarker, hindent, hblanks⟩ := hends v body outer ⟨_, hb.run⟩ hmodes hskips ahead hfind
    have hblank : ∀ line ∈ above, line.isBlank = true := by simpa using habove
    rw [hlines, List.takeWhile_append_of_pos hblank] at hblanks
    have hdrop : unlines ((splitLines source'.text).drop v.position.line) =
        unlines (above.map Line.chars) ++ unlines ((ahead :: below).map Line.chars) := by
      rw [hchars, hlines, List.map_append]
      exact List.flatMap_append
    obtain ⟨closed', hclosed', hclosings⟩ := hb.exists_closed h hclear hskips hmodes hbodies hclosed
      hlines hblank (by simpa using hfilled) hmarker hindent
    rw [← hb.twin.line_eq] at hlines hclosed'
    exact ⟨closed'.piece, agrees_of_closings hclosings, fun tokens =>
      leadsTo_of_body_iff hmodes' hmode' hgoes' hfront hlines hblank
        (fun line hline => hblanks line (List.mem_append_left _ hline)) (hdrop ▸ hrest') hclosed'
        (hdrop ▸ hbehind') hposition'⟩

/-- Where an import that is skipped ends a body, both scans come to its line with the same text,
whatever the second one has to read for it. -/
theorem Beside.exists_of_body (h : source.Empties source')
    (hb : Beside source source' behind before before' v v')
    (hclear : ∀ k, behind < k → k ≤ v.position.line → ¬source.SkipsLine k)
    (hskips : source.SkipsLine (v.position.line + 1)) (hmodes : v.modes = .body body :: outer)
    (hends : source.BodiesSeeEnds source') (hfront : '\n' ∉ front)
    (hrest : v.rest = front ++ '\n' :: more)
    (hrest' : v'.rest =
      front ++ '\n' :: unlines ((splitLines source'.text).drop v.position.line))
    (hmove : Move source.table v moved w) (hleaves : w.mode ≠ .body) :
    ∃ moved' w', Beside source source' behind (before ++ moved) (before' ++ moved') w w' ∧
      w'.rest = unlines ((splitLines source'.text).drop v.position.line) := by
  obtain ⟨closed, hclosed, rfl, hbehind, hmoved⟩ := hmove.of_bodyLine hmodes hfront hrest hleaves
  obtain ⟨body', outer', hbodies, houter, hmodes'⟩ : ∃ body' outer', Shift.loose.Bodies body body' ∧
      List.Forall₂ Shift.loose.Activations outer outer' ∧ v'.modes = .body body' :: outer' := by
    have hmemories := hb.twin.memories.modes
    rw [hmodes] at hmemories
    obtain ⟨activation, outer', hfirst, houter, hmodes'⟩ := List.forall₂_cons_left_iff.1 hmemories
    cases hfirst with
    | body hbodies => exact ⟨_, outer', hbodies, houter, hmodes'⟩
  have hmode' : modeOf outer' = .block := by
    have hstacked' := hb.way'.stacked
    rw [hmodes'] at hstacked'
    obtain ⟨hpos, houter'⟩ := hstacked'.of_body
    rw [houter']
    cases hcount : v'.blocks.length with
    | zero => exact absurd hcount (Nat.ne_of_gt hpos)
    | succ => rfl
  -- The second scan as it is behind the body, with all the blank lines ahead.
  let w' : Scan :=
    { rest := unlines ((splitLines source'.text).drop v.position.line)
      position := v'.position.after (front ++ ['\n'])
      modes := outer'
      blocks := v'.blocks
      afterBody := true }
  have hbehind' : BehindBody outer' v'.blocks _ w' := ⟨rfl, rfl, rfl, rfl, rfl, rfl⟩
  obtain ⟨piece', hagrees, hleads⟩ := hb.exists_agrees_of_body h hclear hskips hends hmodes hmodes'
    hbodies hmode' hclosed hfront hrest' hbehind' rfl
  rw [List.append_cons] at hrest'
  exact ⟨[piece'], w', ⟨hb.run.trans hmove.run, fun tokens => (hb.leads tokens).trans (hleads tokens),
    List.rel_append hb.agrees (.cons hagrees .nil), hbehind.twin hb.twin hbehind' houter hmoved rfl,
    hbehind'.onWay hb.way' hmodes' hrest' rfl, Nat.lt_of_lt_of_le hb.line (line_le_of_run hmove.run),
    (h.onWay ⟨_, hb.run⟩).opensBehind_of_move hmove _, hbehind.goes⟩, rfl⟩

end Scan

namespace Scan.Beside

variable {source source' : Source} {behind n : Nat} {before before' moved more : List Piece}
  {s s' t v v' w : Scan} {ahead : List Char} {rule : Rule} {m m' : Match}

/-- If the tables do not agree about the members of a header, there are none in the second text. -/
theorem isEnd_of_header (h : source.Empties source') (hheaders : source.HeadersSeeMembers source')
    (hv : source.ComesTo v) (hselect : v.mode.select v.rest = some (.headerNewline, m))
    (hheader : v.followsHeader = true)
    (hdiffers : ((source'.table.nextContentAfter v.position.line).map fun line =>
        (line.indent, line.isEnd)) ≠
      (source.table.nextContentAfter v.position.line).map fun line => (line.indent, line.isEnd)) :
    ∀ line' ∈ source'.table.nextContentAfter v.position.line, line'.isEnd = true := by
  intro line' hline'
  rcases hheaders v m hv hselect hheader line' hline' with hend | ⟨line, hline, hindent⟩
  · exact hend
  · rcases h.nextContent_cases v.position.line with ⟨import?, himport, hdirective⟩ | hsame
    · by_contra hmember
      obtain rfl := Option.some.inj (himport.symm.trans hline)
      refine hdiffers ?_
      rw [hline', hline, Option.map_some, Option.map_some, hindent, Line.isEnd_of_directive hdirective,
        Bool.eq_false_iff.2 hmember]
    · exact absurd hsame hdiffers

variable (h : source.Empties source') (hheaders : source.HeadersSeeMembers source')
  (hbodies : source.BodiesSeeEnds source')

include h hheaders hbodies

/-- On the way to the next line that is skipped both scans make the same move. -/
theorem exists_move (hb : Beside source source' behind before before' v v')
    (hmove : Move source.table v moved w) (hmore : Run source.table w more t)
    (ht : source.SkipsAt (n + 1) m t)
    (hclear : ∀ k, behind < k → k ≤ n → ¬source.SkipsLine k)
    (hrest : v.rest = ahead ++ unlines ((splitLines source.text).drop n))
    (hrest' : v'.rest = ahead ++ unlines ((splitLines source'.text).drop n)) :
    ∃ moved' w' left, Beside source source' behind (before ++ moved) (before' ++ moved') w w' ∧
      w.rest = left ++ unlines ((splitLines source.text).drop n) ∧
      w'.rest = left ++ unlines ((splitLines source'.text).drop n) := by
  have htrest := ht.rest_eq h
  have htne := Mode.ne_nil_of_select ht.select
  have hne : v.rest ≠ [] := by
    rw [hrest, ← htrest]
    exact List.append_ne_nil_of_right_ne_nil _ htne
  obtain ⟨left, hleft, -⟩ := hmore.exists_passed
  rw [htrest] at hleft
  have hw := hmove.isDone_of_rest hb.goes hne
  obtain ⟨rule, m', a, piece?, hselect, -, -, hcut, -⟩ := hmove.exists_of_rest hne
  have hahead : ahead = m'.lexeme ++ left := by
    rw [hrest, hleft, ← List.append_assoc] at hcut
    exact List.append_cancel_right hcut
  by_cases hforgets : rule = .headerNewline ∧ v.followsHeader = true ∧
      ((source'.table.nextContentAfter v.position.line).map fun line => (line.indent, line.isEnd)) ≠
        (source.table.nextContentAfter v.position.line).map fun line => (line.indent, line.isEnd)
  · obtain ⟨rfl, hheader, hdiffers⟩ := hforgets
    rw [hahead, List.append_assoc] at hrest'
    obtain ⟨moved', w', hbeside, hw'⟩ := hb.exists_of_header h hselect hheader hrest' hmove
      (isEnd_of_header h hheaders ⟨_, hb.run⟩ hselect hheader hdiffers)
    exact ⟨moved', w', left, hbeside, hleft, hw'⟩
  by_cases hends : ∃ body outer, v.modes = .body body :: outer ∧ v.position.line = n
  · obtain ⟨body, outer, hmodes, rfl⟩ := hends
    have hne' : ahead ≠ [] := by
      rw [hahead]
      exact List.append_ne_nil_of_left_ne_nil (Mode.select_lexeme_ne_nil hselect) _
    obtain ⟨front, hfront, rfl, hwrest⟩ := exists_front_of_body h ⟨_, hb.run⟩ hmodes hmove hne'
      (Nat.le_of_lt (ht.lt_length h)) hrest
    have hsame : w.rest = t.rest := hwrest.trans htrest.symm
    obtain ⟨-, rfl⟩ := hmore.eq_of_length_le (hsame ▸ htne) (Nat.le_of_eq (congrArg _ hsame))
    rw [← List.append_cons] at hrest hrest'
    obtain ⟨moved', w', hbeside, hw'⟩ := hb.exists_of_body h hclear ⟨m, t, ht⟩ hmodes hbodies hfront
      hrest hrest' hmove fun hmode => by
        rcases Mode.of_select_directive ht.select with hother | hother <;>
          cases hmode.symm.trans hother
    exact ⟨moved', w', [], hbeside, hwrest, hw'⟩
  · obtain ⟨moved', w', passed, left', hmove', htwin, hagrees, -, hwrest, hwrest'⟩ :=
      hb.twin.exists_move source'.table hmove ⟨left, hleft⟩ hrest hrest'
        (fun hnil => absurd (htrest.trans hnil) htne) fun {rule' m'' left'} hselect' htext hwrest => by
          subst htext
          obtain ⟨rfl, rfl⟩ := Prod.mk.inj (Option.some.inj (hselect.symm.trans hselect'))
          refine hb.inStep h hclear (Nat.le_of_lt (ht.lt_length h)) hselect hrest hrest'
            (fun hruns hnil => ?_) (fun hrule hafter => ?_) (fun hrule hheader => ?_)
            fun hrule body outer hmodes hline => hends ⟨body, outer, hmodes, hline⟩
          · rw [hnil, List.nil_append, ← htrest] at hwrest
            have hwne : w.rest ≠ [] := hwrest ▸ htne
            obtain ⟨-, rfl⟩ := hmore.eq_of_length_le hwne (Nat.le_of_eq (congrArg _ hwrest))
            exact hmove.not_runsOn hselect ht.select hruns
          · subst hrule
            exact bodyIndent_of_marker h ⟨_, hb.run⟩ hmove hselect hafter
          · by_contra hdiffers
            exact hforgets ⟨hrule, hheader, hdiffers⟩
    refine ⟨moved', w', left', ⟨hb.run.trans hmove.run,
      fun tokens => (hb.leads tokens).trans hmove'.run.leadsTo_iff,
      List.rel_append hb.agrees hagrees, htwin, hb.way'.run h.numbered' hmove'.run,
      Nat.lt_of_lt_of_le hb.line (line_le_of_run hmove.run), ?_, hw⟩, hwrest, hwrest'⟩
    exact opensBehind_of_run h.numbered hmove.run (h.onWay ⟨_, hb.run⟩) hb.line hb.opens

/-- So both scans come to the line. -/
theorem exists_run (hb : Beside source source' behind before before' v v')
    (hrun : Run source.table v more t) (ht : source.SkipsAt (n + 1) m t)
    (hclear : ∀ k, behind < k → k ≤ n → ¬source.SkipsLine k)
    (hrest : v.rest = ahead ++ unlines ((splitLines source.text).drop n))
    (hrest' : v'.rest = ahead ++ unlines ((splitLines source'.text).drop n)) :
    ∃ before₁ before₁' t', Beside source source' behind before₁ before₁' t t' ∧
      t'.rest = unlines ((splitLines source'.text).drop n) := by
  induction hrun using Run.induction_on_moves generalizing before before' v' ahead with
  | refl =>
    obtain rfl : ahead = [] := by
      rw [ht.rest_eq h] at hrest
      exact (List.append_cancel_right ((List.nil_append _).trans hrest)).symm
    exact ⟨before, before', v', hb, hrest'⟩
  | move hmove hmore ih =>
    obtain ⟨moved', w', left, hbeside, hw, hw'⟩ :=
      hb.exists_move h hheaders hbodies hmove hmore ht hclear hrest hrest'
    exact ih hbeside hw hw'

end Scan.Beside

/-! ## Texts line by line -/

namespace Source.Empties

variable {source source' : Source} {behind n : Nat} (h : source.Empties source')

include h

/-- Where no line is skipped the texts have the same lines. -/
theorem take_drop_eq (hclear : ∀ k, behind < k → k ≤ n → ¬source.SkipsLine k) :
    ((splitLines source'.text).drop behind).take (n - behind) =
      ((splitLines source.text).drop behind).take (n - behind) := by
  apply List.ext_getElem?
  intro i
  rw [List.getElem?_take, List.getElem?_take, List.getElem?_drop, List.getElem?_drop]
  split
  · exact h.kept _ (hclear _ (by omega) (by omega))
  · rfl

/-- So they begin with the same characters there. -/
theorem exists_ahead (hle : behind ≤ n)
    (hclear : ∀ k, behind < k → k ≤ n → ¬source.SkipsLine k) :
    ∃ ahead,
      unlines ((splitLines source.text).drop behind) =
          ahead ++ unlines ((splitLines source.text).drop n) ∧
        unlines ((splitLines source'.text).drop behind) =
          ahead ++ unlines ((splitLines source'.text).drop n) := by
  have hparts (lines : List (List Char)) : unlines (lines.drop behind) =
      unlines ((lines.drop behind).take (n - behind)) ++ unlines (lines.drop n) := by
    have happend : unlines ((lines.drop behind).take (n - behind) ++
        (lines.drop behind).drop (n - behind)) = _ := List.flatMap_append
    rw [List.take_append_drop, List.drop_drop, Nat.add_sub_cancel' hle] at happend
    exact happend
  refine ⟨unlines (((splitLines source.text).drop behind).take (n - behind)), hparts _, ?_⟩
  rw [hparts, h.take_drop_eq hclear]

/-- Behind the last line that is skipped the tables agree. -/
theorem agreesBehind (hclear : ∀ k, behind < k → ¬source.SkipsLine k) :
    LineTable.AgreesBehind behind source.table source'.table :=
  ⟨h.tabWidth_eq, LineTable.forall₂_drop_of_rel behind fun k hk => h.get?_same (hclear k hk)⟩

theorem drop_eq (hclear : ∀ k, behind < k → ¬source.SkipsLine k) :
    (splitLines source'.text).drop behind = (splitLines source.text).drop behind := by
  apply List.ext_getElem?
  intro i
  rw [List.getElem?_drop, List.getElem?_drop]
  exact h.kept _ (hclear _ (by omega))

/-- Only lines of the text are skipped. -/
theorem le_length (hskips : source.SkipsLine n) : n ≤ (splitLines source.text).length := by
  obtain ⟨line, hline, -⟩ := h.exists_directive hskips
  obtain ⟨k, rfl⟩ := Nat.exists_eq_succ_of_ne_zero (Nat.ne_of_gt (LineTable.pos_of_get? hline))
  obtain ⟨m, t, ht⟩ := hskips
  exact ht.lt_length h

end Source.Empties

namespace Scan

variable {source source' : Source} {behind n : Nat} {before before' : List Piece} {s s' t t' : Scan}
  {m : Match}

/-- Two scans at the beginning of the next line. -/
structure Cut (source source' : Source) (behind : Nat) (before before' : List Piece)
    (s s' : Scan) : Prop extends Beside source source' behind before before' s s' where
  rest : s.rest = unlines ((splitLines source.text).drop behind)
  rest' : s'.rest = unlines ((splitLines source'.text).drop behind)

theorem cut_of_start (h : source.Empties source') :
    Cut source source' 0 [] [] (Lexer.ofSource source).scan (Lexer.ofSource source').scan where
  run := .refl _
  leads _ := .rfl
  agrees := .nil
  twin := ⟨⟨trivial, rfl, rfl⟩, .nil, rfl, rfl, rfl, rfl⟩
  way' := onWay_of_start _ rfl rfl rfl rfl
  line := Nat.zero_lt_one
  opens _ _ hmodes := nomatch hmodes
  goes := rfl
  rest := (unlines_splitLines_of_closed h.closed).symm
  rest' := (unlines_splitLines_of_closed h.closed').symm

/-- A line that is skipped leaves both scans at the beginning of the next one. -/
theorem Beside.exists_cut (h : source.Empties source')
    (hb : Beside source source' behind before before' t t') (ht : source.SkipsAt (n + 1) m t)
    (hrest' : t'.rest = unlines ((splitLines source'.text).drop n)) :
    ∃ before₁ before₁' s s', Cut source source' (n + 1) before₁ before₁' s s' := by
  have hrest := ht.rest_eq h
  have hway := h.onWay ⟨_, hb.run⟩
  have hmode := Mode.of_select_directive ht.select
  have hmode' : t.mode = .default ∨ t.mode = .block ∨ t.mode = .expression :=
    hmode.imp_right .inl
  -- The first scan skips the import, the second one is at the end of its line already.
  obtain ⟨hline, -⟩ := hway.stands.exists_directive ht.select ht.takes.1 ht.takes.2
  rw [ht.line, Nat.add_sub_cancel] at hline
  have hempty := h.emptied n ⟨m, t, ht⟩
  rw [List.drop_eq_getElem?_toList_append, hline] at hrest
  rw [List.drop_eq_getElem?_toList_append, hempty] at hrest'
  have hfree := lineFeed_not_mem_of_mem_splitLines (List.mem_of_getElem? hline)
  obtain ⟨u, hu⟩ := exists_skips source.table (.inl rfl) hb.goes ht.select
    (hrest.trans (unlines_cons _ _)) hfree
  have hu' := skips_refl source'.table (hb.twin.memories.isDone.trans hb.goes)
  rw [hrest'] at hu'
  have habreast := hb.twin.abreast hu hu' hmode'
  -- No header is on the line.
  have hbehind : BehindHeader t := behindHeader_of_run hb.run rfl (Mode.ne_nil_of_select ht.select)
    ⟨Nat.one_pos, fun _ htoken => nomatch htoken⟩ ht.takes.1
  obtain ⟨v, v', piece, piece', hsteps⟩ := habreast.exists_steps source.table source'.table
    fun hheader => by
      rw [← (habreast.memories.headed habreast.line).1,
        (hb.twin.memories.headed hb.twin.line_eq).1, hbehind.not_header.1] at hheader
      cases hheader
  refine ⟨_, _, v, v', ⟨hb.run.trans (hu.run.trans hsteps.move.run),
    fun tokens => (hb.leads tokens).trans hsteps.move'.run.leadsTo_iff,
    List.rel_append hb.agrees (.cons hsteps.agrees .nil), hsteps.twin,
    hb.way'.run h.numbered' hsteps.move'.run, ?_, ?_, hsteps.goes⟩, hsteps.rest, hsteps.rest'⟩
  · rw [hsteps.line, hu.line, ht.line]
    exact Nat.lt_succ_self _
  · exact (hway.run h.numbered hu.run).opensBehind_of_move hsteps.move _

end Scan

namespace Source.Empties

variable {source source' : Source} (h : source.Empties source')
  (hheaders : source.HeadersSeeMembers source') (hbodies : source.BodiesSeeEnds source')

include h hheaders hbodies

/-- Both scans come to the beginning of the line behind the last one that is skipped. -/
theorem exists_cut (n : Nat) :
    ∃ behind before before' s s', Scan.Cut source source' behind before before' s s' ∧ behind ≤ n ∧
      ∀ k, behind < k → k ≤ n → ¬source.SkipsLine k := by
  induction n with
  | zero =>
    exact ⟨0, [], [], _, _, Scan.cut_of_start h, Nat.le_refl 0, fun k hk hle =>
      absurd hk (Nat.not_lt_of_le hle)⟩
  | succ n ih =>
    obtain ⟨behind, before, before', s, s', hcut, hle, hclear⟩ := ih
    by_cases hskips : source.SkipsLine (n + 1)
    · obtain ⟨m, t, ht⟩ := hskips
      obtain ⟨pieces, hrun⟩ := ht.comes
      obtain ⟨ahead, hahead, hahead'⟩ := h.exists_ahead hle hclear
      have hrest := hcut.rest.trans hahead
      obtain ⟨after, u, -, hafter, hu⟩ := hcut.run.exists_between hrun
        (Mode.ne_nil_of_select ht.select) (by
          rw [hrest, ← ht.rest_eq h, List.length_append]
          exact Nat.le_add_left _ _)
      have hskipped : source.SkipsAt (n + 1) m u := by
        refine ⟨⟨_, hcut.run.trans hafter⟩, ?_, ⟨?_, ?_⟩, ?_⟩
        · rw [hu.memories.mode, hu.rest]
          exact ht.select
        · rw [hu.position]
          exact ht.takes.1
        · rw [hu.rest]
          exact ht.takes.2
        · rw [hu.position]
          exact ht.line
      obtain ⟨_, _, u', hbeside, hu'⟩ := hcut.toBeside.exists_run h hheaders hbodies hafter hskipped
        hclear hrest (hcut.rest'.trans hahead')
      obtain ⟨_, _, v, v', hcut'⟩ := hbeside.exists_cut h hskipped hu'
      exact ⟨n + 1, _, _, v, v', hcut', Nat.le_refl _, fun k hk hle =>
        absurd hk (Nat.not_lt_of_le hle)⟩
    · refine ⟨behind, before, before', s, s', hcut, Nat.le_succ_of_le hle, fun k hk hle' => ?_⟩
      rcases Nat.le_succ_iff.1 hle' with hle' | rfl
      · exact hclear k hk hle'
      · exact hskips

/-- The tokens of both sources mean the same. -/
theorem meanings_tokens :
    meanings (Lexer.tokens source') = meanings (Lexer.tokens source) := by
  obtain ⟨behind, before, before', s, s', hcut, hle, hclear⟩ :=
    h.exists_cut hheaders hbodies (splitLines source.text).length
  have hclear' (k : Nat) (hk : behind < k) : ¬source.SkipsLine k := fun hskips =>
    hclear k hk (h.le_length hskips) hskips
  refine Lexer.meanings_of_twins (fun _ => hcut.run.leadsTo_iff) hcut.leads hcut.agrees hcut.twin ?_
    (h.agreesBehind hclear') h.numbered h.numbered' (h.onWay ⟨_, hcut.run⟩) hcut.way' hcut.line
    fun body outer hmodes => Nat.le_of_succ_le (hcut.opens body outer hmodes)
  rw [hcut.rest, hcut.rest', h.drop_eq hclear']

end Source.Empties

namespace Scan

/-! ## States that can be computed -/

variable {table : LineTable} {s t u : Scan} {moved pieces : List Piece} {all : List Scan}

/-- The state behind the next move of a scan, if there is a move.  What is recorded of the end
of a string is not computed. -/
def successor? (table : LineTable) (s : Scan) : Option (Option Scan) :=
  if s.isDone then some none
  else
    match s.step table with
    | (t, none) => some (some t)
    | (t, some (.ok piece)) =>
      if piece.kind = .stringEnd then none
      else if piece.kind = .token .attributeName then
        match t.blocks.checkMember (table.indentOf piece.span.line) with
        | .ok blocks => some (some { t with blocks })
        | .error _ => some none
      else some (some t)
    | (_, some (.error _)) => some none

theorem successor?_of_move {v? : Option Scan} (hmove : Move table s moved t)
    (hnext : s.successor? table = some v?) : v? = some t := by
  unfold successor? at hnext
  cases hmove with
  | quiet hs hstep =>
    rw [hs, hstep] at hnext
    exact (Option.some.inj hnext).symm
  | @piece v _ piece hs hstep hsettles =>
    rw [hs, hstep] at hnext
    dsimp only at hnext
    cases hsettles with
    | member hkind hcheck =>
      rw [if_neg Bool.false_ne_true, if_neg (by simp [hkind]), if_pos hkind, hcheck] at hnext
      exact (Option.some.inj hnext).symm
    | string _ hkind =>
      rw [if_neg Bool.false_ne_true, if_pos hkind] at hnext
      cases hnext
    | other hattribute hstring =>
      rw [if_neg Bool.false_ne_true, if_neg hstring, if_neg hattribute] at hnext
      exact (Option.some.inj hnext).symm

theorem exists_move_of_successor? (h : s.successor? table = some (some t)) :
    ∃ moved, Move table s moved t := by
  unfold successor? at h
  split at h
  · cases h
  next hs =>
  rw [Bool.not_eq_true] at hs
  split at h
  · next hstep =>
    obtain rfl := Option.some.inj (Option.some.inj h)
    exact ⟨[], .quiet hs hstep⟩
  · next piece hstep =>
    split at h
    · cases h
    next hstring =>
    split at h
    · next hattribute =>
      split at h
      · next hcheck =>
        obtain rfl := Option.some.inj (Option.some.inj h)
        exact ⟨[piece], .piece hs hstep (.member hattribute hcheck)⟩
      · cases h
    · next hattribute =>
      obtain rfl := Option.some.inj (Option.some.inj h)
      exact ⟨[piece], .piece hs hstep (.other hattribute hstring)⟩
  · cases h

/-- All states that a scan comes to, if they are not too many. -/
def states (table : LineTable) : Nat → Scan → Option (List Scan)
  | 0, _ => none
  | count + 1, s =>
    match s.successor? table with
    | none => none
    | some none => some [s]
    | some (some t) => (states table count t).map (s :: ·)

theorem mem_states_iff {count : Nat} (h : states table count s = some all) (u : Scan) :
    u ∈ all ↔ ∃ pieces, Run table s pieces u := by
  fun_induction states table count s generalizing all with
  | case1 | case2 => cases h
  | case3 count s hnext =>
    obtain rfl := Option.some.inj h
    rw [List.mem_singleton]
    constructor
    · rintro rfl
      exact ⟨[], .refl u⟩
    · rintro ⟨pieces, hrun⟩
      induction hrun using Run.induction_on_moves with
      | refl => rfl
      | move hmove => cases successor?_of_move hmove hnext
  | case4 count s t hnext ih =>
    obtain ⟨rest, hrest, rfl⟩ := Option.map_eq_some_iff.1 h
    rw [List.mem_cons, ih hrest]
    constructor
    · rintro (rfl | ⟨pieces, hrun⟩)
      · exact ⟨[], .refl u⟩
      · obtain ⟨moved, hmove⟩ := exists_move_of_successor? hnext
        exact ⟨_, hmove.run.trans hrun⟩
    · rintro ⟨pieces, hrun⟩
      induction hrun using Run.induction_on_moves with
      | refl => exact .inl rfl
      | move hmove hmore =>
        obtain rfl := Option.some.inj (successor?_of_move hmove hnext)
        exact .inr ⟨_, hmore⟩

instance (s : Scan) (m : Match) : Decidable (s.TakesLine m) :=
  inferInstanceAs (Decidable (_ ∧ _))

/-- The line that a scan skips as an import, if it is a whole line. -/
def skippedLine? (s : Scan) : Option Nat :=
  match s.mode.select s.rest with
  | some (.directive, m) => if s.TakesLine m then some s.position.line else none
  | _ => none

theorem skippedLine?_eq_some_iff {n : Nat} :
    s.skippedLine? = some n ↔ ∃ m, s.mode.select s.rest = some (.directive, m) ∧ s.TakesLine m ∧
      s.position.line = n := by
  unfold skippedLine?
  split
  · next m hselect =>
    rw [hselect, Option.ite_none_right_eq_some, Option.some_inj]
    constructor
    · rintro ⟨htakes, hline⟩
      exact ⟨m, rfl, htakes, hline⟩
    · rintro ⟨m', hsame, htakes, hline⟩
      obtain ⟨-, rfl⟩ := Prod.mk.inj (Option.some.inj hsame)
      exact ⟨htakes, hline⟩
  · next hother =>
    refine iff_of_false (nomatch ·) ?_
    rintro ⟨m, hselect, -⟩
    exact hother m hselect

end Scan

namespace Source

variable {source source' : Source} {count : Nat} {all : List Scan}

theorem skipsLine_iff (hall : Scan.states source.table count (Lexer.ofSource source).scan = some all)
    {n : Nat} : source.SkipsLine n ↔ ∃ s ∈ all, s.skippedLine? = some n := by
  constructor
  · rintro ⟨m, s, hs, hselect, htakes, hline⟩
    exact ⟨s, (Scan.mem_states_iff hall s).2 hs,
      Scan.skippedLine?_eq_some_iff.2 ⟨m, hselect, htakes, hline⟩⟩
  · rintro ⟨s, hs, hline⟩
    obtain ⟨m, hselect, htakes, hline⟩ := Scan.skippedLine?_eq_some_iff.1 hline
    exact ⟨m, s, (Scan.mem_states_iff hall s).1 hs, hselect, htakes, hline⟩

/-- Whether the line that a header looks ahead to does no harm. -/
def headerSees (source source' : Source) (s : Scan) : Bool :=
  match s.mode.select s.rest with
  | some (.headerNewline, _) =>
    !s.followsHeader || (source'.table.nextContentAfter s.position.line).all fun line' =>
      line'.isEnd || (source.table.nextContentAfter s.position.line).any fun line =>
        line.indent = line'.indent
  | _ => true

theorem headersSeeMembers_of_states
    (hall : Scan.states source.table count (Lexer.ofSource source).scan = some all)
    (h : all.all (source.headerSees source') = true) : source.HeadersSeeMembers source' := by
  intro s m hs hselect hheader line' hline'
  have hsees := List.all_eq_true.1 h s ((Scan.mem_states_iff hall s).2 hs)
  rw [Option.mem_def] at hline'
  simp only [headerSees, hselect, hheader, hline', Bool.not_true, Bool.false_or, Option.all_some,
    Bool.or_eq_true, Option.any_eq_true, decide_eq_true_eq] at hsees
  exact hsees

/-- Whether the line in front of which a body ends does no harm, if the line there is skipped. -/
def bodySees (source' : Source) (skipped : List Nat) (s : Scan) : Bool :=
  match s.modes with
  | .body body :: _ =>
    !skipped.contains (s.position.line + 1) ||
      ((source'.table.lines.drop s.position.line).find? fun line => !line.isBlank).all fun ahead =>
        !ahead.isMarker && decide (ahead.indent < body.indent) &&
          ((source'.table.lines.drop s.position.line).takeWhile Line.isBlank).all fun line =>
            line.chars.all isBlank
  | _ => true

theorem bodiesSeeEnds_of_states
    (hall : Scan.states source.table count (Lexer.ofSource source).scan = some all)
    (h : all.all (source'.bodySees (all.filterMap Scan.skippedLine?)) = true) :
    source.BodiesSeeEnds source' := by
  intro s body outer hs hmodes hskips ahead hahead
  have hskipped : (all.filterMap Scan.skippedLine?).contains (s.position.line + 1) = true := by
    rw [List.contains_iff_mem, List.mem_filterMap]
    exact (skipsLine_iff hall).1 hskips
  have hsees := List.all_eq_true.1 h s ((Scan.mem_states_iff hall s).2 hs)
  rw [Option.mem_def] at hahead
  simp only [bodySees, hmodes, hskipped, hahead, Bool.not_true, Bool.false_or, Option.all_some,
    Bool.and_eq_true, Bool.not_eq_true', decide_eq_true_eq, List.all_eq_true] at hsees
  exact ⟨hsees.1.1, hsees.1.2, hsees.2⟩

end Source

/-! ## Texts -/

section Tokenize

variable {tree : FileTree} {config : Config} {path : Path} {source source' : Source}
  {text text' : List Char}

/-- Imports that are not followed are invisible, unless a block or a body takes them for a line of
its own.  Where a scan skips whole lines, the text with these lines emptied has tokens with the
same kinds, values, lines and columns, or both texts have a fault. -/
theorem meanings_tokenize_of_emptied (hfollow : config.followImports = false)
    (hsource : (Source.ofText tree config text path).outcome = .ok source)
    (hsource' : (Source.ofText tree config text' path).outcome = .ok source')
    (hemptied : ∀ n, source.SkipsLine (n + 1) →
      (splitLines (normalizeNewlines text'))[n]? = some [])
    (hkept : ∀ n, ¬source.SkipsLine (n + 1) →
      (splitLines (normalizeNewlines text'))[n]? = (splitLines (normalizeNewlines text))[n]?)
    (hheaders : source.HeadersSeeMembers source') (hbodies : source.BodiesSeeEnds source') :
    meanings (tokenize tree config text' path) = meanings (tokenize tree config text path) := by
  obtain ⟨source₁, hsource₁, htext, htable⟩ :=
    (isSettled_of_off hfollow (normalizeNewlines text)).exists_source tree path
  obtain ⟨source₁', hsource₁', htext', htable'⟩ :=
    (isSettled_of_off hfollow (normalizeNewlines text')).exists_source tree path
  obtain rfl := Except.ok.inj (hsource.symm.trans hsource₁)
  obtain rfl := Except.ok.inj (hsource'.symm.trans hsource₁')
  have hclosed := closed_normalizeNewlines text
  have hclosed' := closed_normalizeNewlines text'
  rw [unlines_splitLines_of_closed hclosed] at htext
  rw [unlines_splitLines_of_closed hclosed'] at htext'
  have htab : source.table.tabWidth = config.tabWidth := congrArg LineTable.tabWidth htable
  have h : source.Empties source' :=
    { table := htab ▸ htable
      table' := htab ▸ htable'
      closed := htext ▸ hclosed
      closed' := htext' ▸ hclosed'
      emptied := htext' ▸ hemptied
      kept := htext ▸ htext' ▸ hkept }
  unfold tokenize
  rw [hsource, hsource']
  exact h.meanings_tokens hheaders hbodies

/-- Imports behind a header and behind a body do no harm where they stand with the members and
with the end of the block. -/
theorem meanings_tokenize_of_emptied_behind_header_and_body :
    let text := "A\n  import p\n  x = 1\n  ---\n    t\n import q\n\nend\n".toList
    let text' := "A\n\n  x = 1\n  ---\n    t\n\n\nend\n".toList
    let config : Config := { followImports := false }
    ∃ source source', (Source.ofText ⟨[], []⟩ config text textOrigin).outcome = .ok source ∧
      (Source.ofText ⟨[], []⟩ config text' textOrigin).outcome = .ok source' ∧
      (∀ n, source.SkipsLine n ↔ n = 2 ∨ n = 6) ∧
      source.HeadersSeeMembers source' ∧ source.BodiesSeeEnds source' ∧
      meanings (tokenize ⟨[], []⟩ config text' textOrigin) =
        meanings (tokenize ⟨[], []⟩ config text textOrigin) ∧
      (meanings (tokenize ⟨[], []⟩ config text textOrigin)).map (List.map Prod.fst) =
        some [.className, .attributeName, .integer, .body, .blockEnd, .endOfText] := by
  intro text text' config
  have hstates : ((Source.ofText ⟨[], []⟩ config text textOrigin).outcome.bind fun source =>
      (Source.ofText ⟨[], []⟩ config text' textOrigin).outcome.map fun source' =>
        (Scan.states source.table 40 (Lexer.ofSource source).scan).map fun all =>
          (all.filterMap Scan.skippedLine?, all.all (source.headerSees source'),
            all.all (source'.bodySees (all.filterMap Scan.skippedLine?)))) =
      .ok (some ([2, 6], true, true)) := by
    decide +kernel
  have hkinds : (meanings (tokenize ⟨[], []⟩ config text textOrigin)).map (List.map Prod.fst) =
      some [.className, .attributeName, .integer, .body, .blockEnd, .endOfText] := by
    decide +kernel
  obtain ⟨source, hsource, hstates⟩ := exists_of_bind_eq_ok hstates
  obtain ⟨source', hsource', hstates⟩ := exists_of_map_eq_ok hstates
  obtain ⟨all, hall, hstates⟩ := Option.map_eq_some_iff.1 hstates
  obtain ⟨hskipped, hstates⟩ := Prod.mk.inj hstates
  obtain ⟨hheaders, hbodies⟩ := Prod.mk.inj hstates
  have hskips (n : Nat) : source.SkipsLine n ↔ n = 2 ∨ n = 6 := by
    rw [Source.skipsLine_iff hall, ← List.mem_filterMap, hskipped]
    simp
  have hheaders := Source.headersSeeMembers_of_states hall hheaders
  have hbodies := Source.bodiesSeeEnds_of_states hall hbodies
  refine ⟨source, source', hsource, hsource', hskips, hheaders, hbodies,
    meanings_tokenize_of_emptied rfl hsource hsource' (fun n hn => ?_) (fun n hn => ?_) hheaders hbodies,
    hkinds⟩
  · rcases (hskips _).1 hn with hn | hn <;> obtain rfl := Nat.succ.inj hn <;> decide
  · rw [hskips] at hn
    match n, hn with
    | 0, _ | 2, _ | 3, _ | 4, _ | 6, _ | 7, _ => decide
    | 1, hn | 5, hn => simp at hn
    | n + 8, _ => rfl

/-- The first content line behind a header need not be a member: an import that is skipped fixes
the indentation of the members that come behind it. -/
theorem tokenize_fails_behind_suppressed_import :
    let text := "A\n    import x\n  b = 1\nend\n".toList
    let config : Config := { followImports := false }
    ∃ source, (Source.ofText ⟨[], []⟩ config text textOrigin).outcome = .ok source ∧
      (∀ n, source.SkipsLine n ↔ n = 2) ∧
      tokenize ⟨[], []⟩ config text textOrigin =
        .error { cause := .misaligned 4 2, line := 3, column := 3 } ∧
      (meanings (tokenize ⟨[], []⟩ config "A\n\n  b = 1\nend\n".toList textOrigin)).map
          (List.map Prod.fst) =
        some [.className, .attributeName, .integer, .blockEnd, .endOfText] := by
  intro text config
  have hstates : (Source.ofText ⟨[], []⟩ config text textOrigin).outcome.map (fun source =>
      (Scan.states source.table 40 (Lexer.ofSource source).scan).map fun all =>
        all.filterMap Scan.skippedLine?) = .ok (some [2]) := by
    decide +kernel
  have hfault : tokenize ⟨[], []⟩ config text textOrigin =
      .error { cause := .misaligned 4 2, line := 3, column := 3 } := by
    decide +kernel
  have hkinds : (meanings (tokenize ⟨[], []⟩ config "A\n\n  b = 1\nend\n".toList textOrigin)).map
      (List.map Prod.fst) = some [.className, .attributeName, .integer, .blockEnd, .endOfText] := by
    decide +kernel
  obtain ⟨source, hsource, hstates⟩ := exists_of_map_eq_ok hstates
  obtain ⟨all, hall, hskipped⟩ := Option.map_eq_some_iff.1 hstates
  refine ⟨source, hsource, fun n => ?_, hfault, hkinds⟩
  rw [Source.skipsLine_iff hall, ← List.mem_filterMap, hskipped]
  simp

end Tokenize

end BlockLexer
