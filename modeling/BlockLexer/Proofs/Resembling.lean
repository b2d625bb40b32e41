import BlockLexer.Proofs.Margin
import BlockLexer.Proofs.Twins

/-!
# Tables that look the same

The questions to a line table leave much of a line out of account.  So tables may answer the
same although their lines differ.

* `Line.Resembles` are two lines that look the same to everything but the text of a body, and
  `Line.Same` are two that look the same to that, too.
* `Shift.answers_loose` says what the lines around a scan have to have in common for the
  tables to answer a rule alike.
* `LineTable.AgreesBehind` are two tables with the same lines behind a line, and
  `Scan.Twin.exists_run_behind` is a run that does not come to the lines before.
-/

namespace BlockLexer

open Text

/-! ## Lines -/

/-- Two lines that look the same to everything but the text of a body. -/
structure Line.Resembles (line line' : Line) : Prop where
  number : line'.number = line.number
  indent : line'.indent = line.indent
  content : line'.content = line.content
  comment : line'.comment?.isNone = line.comment?.isNone

/-- Two lines that look the same to the text of a body, too. -/
structure Line.Same (line line' : Line) : Prop extends line.Resembles line' where
  chars : line'.chars = line.chars

namespace Line

variable {line line' : Line}

theorem Same.of_chars (hnumber : line'.number = line.number) (hindent : line'.indent = line.indent)
    (hchars : line'.chars = line.chars) : line.Same line' :=
  ⟨⟨hnumber, hindent, by rw [content, content, hchars], by rw [comment?, comment?, hchars]⟩, hchars⟩

theorem Same.symm (h : line.Same line') : line'.Same line :=
  .of_chars h.number.symm h.indent.symm h.chars.symm

namespace Resembles

variable (h : line.Resembles line')

include h

theorem isMarker_eq : line'.isMarker = line.isMarker := by
  rw [isMarker, isMarker, h.content]

theorem isEnd_eq : line'.isEnd = line.isEnd := by
  rw [isEnd, isEnd, h.content]

theorem hasContent_eq : line'.hasContent = line.hasContent := by
  rw [hasContent, hasContent, h.content]

theorem isBlank_eq : line'.isBlank = line.isBlank := by
  rw [isBlank, isBlank, h.hasContent_eq, h.comment]

end Resembles

end Line

/-! ## Tables line by line -/

namespace LineTable

variable {table table' : LineTable} {r : Line → Line → Prop}

/-- Two lists with related elements at every place. -/
theorem forall₂_of_getElem? {α : Type} {r : α → α → Prop} {as bs : List α}
    (h : ∀ i : Nat, Option.Rel r as[i]? bs[i]?) : List.Forall₂ r as bs := by
  induction as generalizing bs with
  | nil =>
    cases bs with
    | nil => exact .nil
    | cons b bs => nomatch h 0
  | cons a as ih =>
    cases bs with
    | nil => nomatch h 0
    | cons b bs =>
      cases h 0 with
      | some hfirst => exact .cons hfirst (ih fun i => h (i + 1))

/-- The lines behind a line are related if every one of them is. -/
theorem forall₂_drop_of_rel (behind : Nat)
    (h : ∀ n, behind < n → Option.Rel r (table.get? n) (table'.get? n)) :
    List.Forall₂ r (table.lines.drop behind) (table'.lines.drop behind) := by
  refine forall₂_of_getElem? fun i => ?_
  have hline := h (behind + i + 1) (by omega)
  rwa [get?_succ, get?_succ, ← List.getElem?_drop, ← List.getElem?_drop] at hline

/-- The same line of two texts is the same line of their tables. -/
theorem same_of_getElem? (tabWidth : Nat) {text text' : List Char} {n : Nat}
    (h : (splitLines text')[n]? = (splitLines text)[n]?) :
    Option.Rel Line.Same ((ofText tabWidth text).get? (n + 1))
      ((ofText tabWidth text').get? (n + 1)) := by
  rw [get?_ofText, get?_ofText, h]
  cases (splitLines text)[n]? with
  | none => exact .none
  | some line => exact .some (.of_chars rfl rfl rfl)

end LineTable

/-! ## Answers -/

section Answers

variable {table table' : LineTable} {current marker last : Nat}

theorem resembles_of_rel {line? line?' : Option Line} (h : Option.Rel Line.Same line? line?') :
    Option.Rel Line.Resembles line? line?' := by
  cases h with
  | none => exact .none
  | some hline => exact .some hline.toResembles

theorem any_eq_of_rel {line? line?' : Option Line} {p : Line → Bool}
    (hp : ∀ {line line' : Line}, line.Resembles line' → p line' = p line)
    (h : Option.Rel Line.Resembles line? line?') : line?'.any p = line?.any p := by
  cases h with
  | none => rfl
  | some hline => exact hp hline

theorem elim_indent_of_rel {line? line?' : Option Line}
    (h : Option.Rel Line.Resembles line? line?') :
    line?'.elim 0 Line.indent = line?.elim 0 Line.indent := by
  cases h with
  | none => rfl
  | some hline => exact hline.indent

theorem LineTable.indentOf_of_rel
    (h : Option.Rel Line.Resembles (table.get? current) (table'.get? current)) :
    table'.indentOf current = table.indentOf current :=
  elim_indent_of_rel h

/-- What is found ahead of a line in two tables. -/
theorem LineTable.nextContentAfter_of_rel {number : Nat}
    (h : List.Forall₂ Line.Resembles (table.lines.drop number) (table'.lines.drop number)) :
    ((table'.nextContentAfter number).map fun line => (line.indent, line.isEnd)) =
      (table.nextContentAfter number).map fun line => (line.indent, line.isEnd) := by
  have hrel := rel_find? (p := Line.hasContent) (q := Line.hasContent)
    (fun hline => hline.hasContent_eq) h
  unfold nextContentAfter
  match (table.lines.drop number).find? Line.hasContent,
    (table'.lines.drop number).find? Line.hasContent, hrel with
  | _, _, .none => rfl
  | _, _, .some hline => rw [Option.map_some, Option.map_some, hline.indent, hline.isEnd_eq]

theorem LineTable.bodyIndent_of_rel {number : Nat}
    (h : List.Forall₂ Line.Resembles (table.lines.drop number) (table'.lines.drop number)) :
    table'.bodyIndent number = table.bodyIndent number :=
  elim_indent_of_rel (rel_find? (fun hline => by rw [hline.isBlank_eq]) h)

/-- The last line of a body that is not blank. -/
theorem OpenBody.lastFilled_of_rel
    (h : ∀ n, marker < n → n ≤ last → Option.Rel Line.Resembles (table.get? n) (table'.get? n)) :
    lastFilled table' marker last = lastFilled table marker last := by
  induction last with
  | zero => rfl
  | succ last ih =>
    have hbefore := ih fun n hmarker hn => h n hmarker (Nat.le_succ_of_le hn)
    rw [lastFilled, lastFilled, hbefore]
    by_cases hmarker : marker < last + 1
    · have hblank := any_eq_of_rel Line.Resembles.isBlank_eq (h (last + 1) hmarker (Nat.le_refl _))
      rw [hblank]
    · rw [decide_eq_false hmarker, Bool.false_and, Bool.false_and]

/-- The characters of the lines of a body. -/
theorem LineTable.map_chars_of_rel {count : Nat}
    (h : ∀ n, marker < n → n ≤ marker + count → Option.Rel Line.Same (table.get? n) (table'.get? n)) :
    ((table'.lines.drop marker).take count).map Line.chars =
      ((table.lines.drop marker).take count).map Line.chars := by
  apply List.ext_getElem?
  intro i
  rw [List.getElem?_map, List.getElem?_map, List.getElem?_take, List.getElem?_take,
    List.getElem?_drop, List.getElem?_drop]
  split
  · have hrel := h (marker + i + 1) (by omega) (by omega)
    rw [get?_succ, get?_succ] at hrel
    match table.lines[marker + i]?, table'.lines[marker + i]?, hrel with
    | _, _, .none => rfl
    | _, _, .some hline => exact congrArg some hline.chars
  · rfl

end Answers

namespace Shift

variable {table table' : LineTable} {body body' : OpenBody} {current : Nat} {s s' : Scan}
  {rule : Rule}

/-- A body that is closed behind the same line. -/
theorem closings_loose (htab : table'.tabWidth = table.tabWidth) (hbodies : loose.Bodies body body')
    {last : Nat} (hlines : ∀ n, body.marker < n → n ≤ last →
      Option.Rel Line.Same (table.get? n) (table'.get? n)) :
    loose.Closings (body.close table (if body.marker < last then some last else none))
      (body'.close table' (if body.marker < last then some last else none)) := by
  have hmarker : body'.marker = body.marker := hbodies.marker
  have hindent : body'.indent = body.indent := hbodies.indent
  refine ⟨?_, trivial, trivial⟩
  show BodyText.mk _ _ _ = BodyText.mk _ _ _
  rw [BodyText.mk.injEq]
  refine ⟨?_, ?_, hbodies.names⟩
  · show body'.marker + 1 = body.marker + 1
    rw [hmarker]
  · by_cases hlt : body.marker < last
    · rw [if_pos hlt, hmarker, hindent, htab]
      dsimp only
      rw [LineTable.map_chars_of_rel fun n hn hle => hlines n hn (by omega)]
      rfl
    · rw [if_neg hlt]
      rfl

/-- A body ends in front of the same line, if the lines up to there are the same. -/
theorem step_loose (htab : table'.tabWidth = table.tabWidth) (hbodies : loose.Bodies body body')
    (hahead : Option.Rel Line.Resembles (table.get? (current + 1)) (table'.get? (current + 1)))
    (hlines : ∀ n, body.marker < n → n ≤ current →
      Option.Rel Line.Same (table.get? n) (table'.get? n)) :
    Option.Rel loose.Closings (body.step table current) (body'.step table' current) := by
  have hmarker : body'.marker = body.marker := hbodies.marker
  have hindent : body'.indent = body.indent := hbodies.indent
  have hfilled : OpenBody.lastFilled table' body.marker current =
      OpenBody.lastFilled table body.marker current :=
    OpenBody.lastFilled_of_rel fun n hn hle => resembles_of_rel (hlines n hn hle)
  have hle := OpenBody.lastFilled_le table body.marker current
  unfold OpenBody.step
  match table.get? (current + 1), table'.get? (current + 1), hahead with
  | _, _, .none => exact .none
  | _, _, .some hline =>
    dsimp only
    rw [hline.isMarker_eq, hline.isBlank_eq, hline.indent, hmarker, hindent, hfilled]
    split
    · exact .some (closings_loose htab hbodies hlines)
    split
    · exact .some (closings_loose htab hbodies fun n hn hn' => hlines n hn (Nat.le_trans hn' hle))
    · exact .none

/-- What the lines around two scans have to have in common for the tables to answer a rule
alike. -/
theorem answers_loose (htab : table'.tabWidth = table.tabWidth) (hnumbered : table.Numbered)
    (hline : s'.position.line = s.position.line)
    (hhere : Option.Rel Line.Resembles (table.get? s.position.line) (table'.get? s.position.line))
    (hmarker : rule = .bodyMarker → s.afterBody = false →
      table'.bodyIndent s.position.line = table.bodyIndent s.position.line)
    (hcontent : rule = .headerNewline → s.followsHeader = true →
      ((table'.nextContentAfter s.position.line).map fun line => (line.indent, line.isEnd)) =
        (table.nextContentAfter s.position.line).map fun line => (line.indent, line.isEnd))
    (hbody : rule = .bodyLine → ∀ body outer, s.modes = .body body :: outer →
      Option.Rel Line.Resembles (table.get? (s.position.line + 1))
          (table'.get? (s.position.line + 1)) ∧
        ∀ n, body.marker < n → n ≤ s.position.line →
          Option.Rel Line.Same (table.get? n) (table'.get? n)) :
    loose.Answers table table' rule s s' := by
  refine ⟨fun _ => ?_, fun hrule hafter => ?_, fun hrule hheader => ?_,
    fun hrule body body' outer hmodes hbodies => ?_⟩
  · rw [hline]
    exact LineTable.indentOf_of_rel hhere
  · have hindent := hmarker hrule hafter
    rw [hline]
    match hget : table.get? s.position.line, table'.get? s.position.line, hhere with
    | _, _, .none => exact .none
    | some marker, _, .some hsame =>
      have hnumber : marker.number = s.position.line := hnumbered _ _ hget
      refine .some ⟨hsame.number, trivial, ?_, ?_⟩
      · show table'.bodyIndent _ = table.bodyIndent _
        rw [hsame.number, hnumber]
        exact hindent
      · show bodyNames _ = bodyNames _
        rw [hsame.content]
  · rw [hline]
    exact hcontent hrule hheader
  · obtain ⟨hahead, hlines⟩ := hbody hrule body outer hmodes
    rw [hline]
    exact step_loose htab hbodies hahead hlines

end Shift

/-! ## Lines behind a line -/

/-- Two tables with the same lines behind a line. -/
structure LineTable.AgreesBehind (behind : Nat) (table table' : LineTable) : Prop where
  tabWidth : table'.tabWidth = table.tabWidth
  lines : List.Forall₂ Line.Same (table.lines.drop behind) (table'.lines.drop behind)

namespace LineTable.AgreesBehind

variable {table table' : LineTable} {behind number : Nat} (h : AgreesBehind behind table table')

include h

theorem symm : AgreesBehind behind table' table :=
  ⟨h.tabWidth.symm, (h.lines.imp fun _ _ => Line.Same.symm).flip⟩

theorem drop_rel (hle : behind ≤ number) :
    List.Forall₂ Line.Same (table.lines.drop number) (table'.lines.drop number) := by
  have hdrop := List.forall₂_drop (number - behind) h.lines
  rwa [List.drop_drop, List.drop_drop, Nat.add_sub_cancel' hle] at hdrop

theorem drop_resembles (hle : behind ≤ number) :
    List.Forall₂ Line.Resembles (table.lines.drop number) (table'.lines.drop number) :=
  (h.drop_rel hle).imp fun _ _ => Line.Same.toResembles

theorem get?_rel (hlt : behind < number) :
    Option.Rel Line.Same (table.get? number) (table'.get? number) := by
  obtain ⟨n, rfl⟩ := Nat.exists_eq_succ_of_ne_zero (Nat.ne_of_gt (Nat.zero_lt_of_lt hlt))
  rw [Nat.succ_eq_add_one, get?_succ, get?_succ, ← List.head?_drop, ← List.head?_drop]
  exact rel_head? (h.drop_rel (Nat.le_of_lt_succ hlt))

end LineTable.AgreesBehind

namespace Scan

variable {table table' : LineTable} {text : List Char} {s s' t u : Scan} {pieces : List Piece}
  {behind : Nat}

/-- The body that is open, if one is, has its marker on a line or behind it. -/
def OpensBehind (line : Nat) (s : Scan) : Prop :=
  ∀ body outer, s.modes = .body body :: outer → line ≤ body.marker

/-- A step opens a body only at the line of the scan. -/
theorem opensBehind_of_step (piece? : Option Piece) (hnumbered : table.Numbered)
    (hway : OnWay table text s) (hs : s.isDone = false)
    (hstep : s.step table = (t, piece?.map Except.ok)) (hline : behind ≤ s.position.line)
    (h : OpensBehind behind s) : OpensBehind behind t := by
  have ofEffect (he : Effect table s t piece?) : OpensBehind behind t := by
    intro body outer hmodes
    by_cases hin : ∃ body' outer', s.modes = .body body' :: outer'
    · obtain ⟨body', outer', hin⟩ := hin
      obtain ⟨-, ⟨-, -, hsame⟩ | ⟨closed, -, hleft, -⟩⟩ := step_in_body piece? hin hstep
      · exact h body outer (hsame ▸ hmodes)
      · have hstacked := hway.stacked
        rw [hin, ← hleft, hmodes] at hstacked
        exact hstacked.not_body_below.elim
    · obtain ⟨rfl, hmode, rfl⟩ :=
        he.opens_body hway.stacked (fun outer' hout => hin ⟨body, outer', hout⟩) hmodes
      obtain ⟨marker, hmarker, rfl, -⟩ := exists_marker_of_step hstep hmode hmodes
      show behind ≤ marker.number
      rwa [hnumbered _ _ hmarker]
  cases piece? with
  | none => exact ofEffect (effect_of_step_quiet hstep).1
  | some piece =>
    rcases effect_of_step hs hstep with ⟨-, -, rfl⟩ | ⟨-, he, -⟩
    · exact h
    · exact ofEffect he

theorem opensBehind_of_run (hnumbered : table.Numbered) (hrun : Run table s pieces t)
    (hway : OnWay table text s) (hline : behind ≤ s.position.line) (h : OpensBehind behind s) :
    OpensBehind behind t := by
  induction hrun with
  | refl s => exact h
  | quiet hs hstep _ ih =>
    exact ih (hway.step none hnumbered hs hstep)
      (Nat.le_trans hline (line_le_of_step none hstep))
      (opensBehind_of_step none hnumbered hway hs hstep hline h)
  | @piece s t v u piece pieces hs hstep hsettles _ ih =>
    refine ih ((hway.step (some piece) hnumbered hs hstep).settles hsettles) ?_ ?_
    · rw [hsettles.position_eq]
      exact Nat.le_trans hline (line_le_of_step (some piece) hstep)
    · intro body outer hmodes
      rw [hsettles.same.1] at hmodes
      exact opensBehind_of_step (some piece) hnumbered hway hs hstep hline h body outer hmodes

/-- Where two tables agree, a run of the one scan that reads on from there is a run of its twin,
if both read the same. -/
theorem Twin.exists_run_behind (htables : LineTable.AgreesBehind behind table table')
    (hnumbered : table.Numbered) (hrun : Run table s pieces u) (h : Twin s s')
    (hrest : s'.rest = s.rest) (hway : OnWay table text s) (hline : behind < s.position.line)
    (hopens : OpensBehind behind s) :
    ∃ pieces' u', Run table' s' pieces' u' ∧ Twin u u' ∧
      List.Forall₂ Piece.Agrees pieces pieces' := by
  obtain ⟨passed, hpassed, -⟩ := hrun.exists_passed
  obtain ⟨pieces', u', hrun', hu, -, hagree⟩ := h.exists_run table' hrun hpassed
    (hrest.trans hpassed) id
    fun {before after v v' skipped ahead rule m} hbefore _ htwin hselect _ hv hv' => by
      have hlater : behind < v.position.line := Nat.lt_of_lt_of_le hline (line_le_of_run hbefore)
      have hbodies := opensBehind_of_run hnumbered hbefore hway (Nat.le_of_lt hline) hopens
      have hhere := htables.get?_rel hlater
      refine ⟨?_, ?_, LineTable.indentOf_of_rel (resembles_of_rel hhere)⟩
      · rw [htwin.mode_eq, hv', ← hv]
        exact hselect
      · refine Shift.answers_loose htables.tabWidth hnumbered htwin.line_eq (resembles_of_rel hhere)
          (fun _ _ => ?_) (fun _ _ => ?_) (fun _ body outer hmodes => ⟨?_, fun n hn _ => ?_⟩)
        · exact LineTable.bodyIndent_of_rel (htables.drop_resembles (Nat.le_of_lt hlater))
        · exact LineTable.nextContentAfter_of_rel (htables.drop_resembles (Nat.le_of_lt hlater))
        · exact resembles_of_rel (htables.get?_rel (Nat.lt_succ_of_lt hlater))
        · exact htables.get?_rel (Nat.lt_of_le_of_lt (hbodies body outer hmodes) hn)
  exact ⟨pieces', u', hrun', hu, hagree⟩

end Scan

end BlockLexer
