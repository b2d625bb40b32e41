import BlockLexer.Proofs.BodyEnds
import BlockLexer.Proofs.Dedented
import BlockLexer.Proofs.Places
import Mathlib.Data.List.DropRight

/-!
# Where bodies end

A scan asks after each line of a body whether the body ends with it, and the answer looks one line
ahead and many lines back.  This module says it all at once: with which line a body ends, and what
it holds then.

* `LineTable.EndsBody` is the line in front of which a body ends, and `LineTable.bodyLines` are the
  lines that belong to it.
* `ClosedBody.Holds` is a body with the text and the place that these lines give it.
* `OpenBody.step_eq_none_of_lines` and `OpenBody.exists_holds`: a body goes on up to this line, and
  ends there with these lines.
* `Scan.Run.exists_opening` is the step that opened a body, and `Scan.Run.steps_in_body` the lines
  since then.
* `OpenBody.holds_of_marker` puts the two together, for every marker line of a text.
-/

namespace BlockLexer

open Text

variable {table : LineTable} {tabWidth m b : Nat} {text : List Char} {body : OpenBody}

/-! ## The line in front of which a body ends -/

/-- Such a line ends a body of this indentation: a marker, or a line that is not blank and stands
left of the body. -/
def Line.Ends (indent : Nat) (line : Line) : Prop :=
  line.isMarker = true ∨ (line.isBlank = false ∧ line.indent < indent)

instance (indent : Nat) (line : Line) : Decidable (line.Ends indent) :=
  inferInstanceAs (Decidable (_ ∨ _))

/-- The first line that ends the body of a marker. -/
structure LineTable.EndsBody (table : LineTable) (marker number : Nat) : Prop where
  lt : marker < number
  ends : ∃ line, table.get? number = some line ∧ line.Ends (table.bodyIndent marker)
  first : ∀ n line, marker < n → n < number → table.get? n = some line →
    ¬ line.Ends (table.bodyIndent marker)

/-- The lines of a body that ends in front of a line.  If this line is no marker, the blank lines
in front of it do not belong to the body. -/
def LineTable.bodyLines (table : LineTable) (marker number : Nat) : List Line :=
  let lines := (table.lines.drop marker).take (number - 1 - marker)
  if (table.get? number).any Line.isMarker then lines else lines.rdropWhile Line.isBlank

/-- A line that ends no body of an indentation goes on with it. -/
theorem Line.not_ends_iff {indent : Nat} {line : Line} :
    ¬ line.Ends indent ↔ line.continues indent = true := by
  unfold Ends continues
  cases line.isMarker <;> cases line.isBlank <;> simp

namespace OpenBody

/-- In front of a line that does not end it a body stays open. -/
theorem step_eq_none {n : Nat}
    (h : ∀ line, table.get? (n + 1) = some line → ¬ line.Ends body.indent) :
    body.step table n = none := by
  unfold step
  split
  · rfl
  next ahead hahead =>
  have hgoes := Line.not_ends_iff.1 (h ahead hahead)
  rw [Line.continues, Bool.and_eq_true, Bool.not_eq_true', Bool.or_eq_true, decide_eq_true_eq]
    at hgoes
  dsimp only
  rw [if_neg (by simp [hgoes.1]), if_neg]
  rw [Bool.and_eq_true, Bool.not_eq_true', decide_eq_true_eq]
  rintro ⟨hfilled, hleft⟩
  exact hgoes.2.elim (fun hblank => absurd (hblank.symm.trans hfilled) (by simp))
    (Nat.not_le_of_lt hleft)

/-- The last filled line is not in front of the marker. -/
theorem le_lastFilled {n : Nat} (hle : m ≤ n) : m ≤ lastFilled table m n := by
  fun_induction lastFilled table m n with
  | case1 => exact hle
  | case2 number hblank ih =>
    rw [Bool.and_eq_true, decide_eq_true_eq] at hblank
    exact ih (Nat.le_of_lt_succ hblank.1)
  | case3 => exact hle

/-- The lines up to the last filled line are those that are left without the blank lines at the
end. -/
theorem take_lastFilled {n : Nat} (hle : m ≤ n) (hsize : n ≤ table.size) :
    (table.lines.drop m).take (lastFilled table m n - m) =
      ((table.lines.drop m).take (n - m)).rdropWhile Line.isBlank := by
  induction n with
  | zero =>
    rw [lastFilled, Nat.zero_sub, List.take_zero]
    rfl
  | succ n ih =>
    rcases Nat.eq_or_lt_of_le hle with rfl | hlt
    · have hsame : lastFilled table (n + 1) (n + 1) = n + 1 := by
        rw [lastFilled, decide_eq_false (Nat.lt_irrefl _), Bool.false_and]
        rfl
      rw [hsame, Nat.sub_self, List.take_zero]
      rfl
    · obtain ⟨line, hline⟩ := table.exists_get? (n + 1) (Nat.succ_pos n) hsize
      have hsnoc : (table.lines.drop m).take (n + 1 - m) =
          (table.lines.drop m).take (n - m) ++ [line] := by
        rw [Nat.succ_sub (Nat.le_of_lt_succ hlt), List.take_add_one, List.getElem?_drop,
          Nat.add_sub_cancel' (Nat.le_of_lt_succ hlt), ← LineTable.get?_succ, hline]
        rfl
      rw [hsnoc, lastFilled, hline, decide_eq_true hlt, Bool.true_and, Option.any_some]
      cases hblank : line.isBlank with
      | true =>
        rw [if_pos rfl, List.rdropWhile_concat_pos _ _ _ hblank]
        exact ih (Nat.le_of_lt_succ hlt) (Nat.le_of_succ_le hsize)
      | false =>
        rw [if_neg Bool.false_ne_true, List.rdropWhile_concat_neg _ _ _ (by simp [hblank]), hsnoc]

/-- The text of a body that is closed behind a line, which need not be behind the marker. -/
theorem text_close (table : LineTable) (body : OpenBody) (last : Nat) :
    (body.close table (if body.marker < last then some last else none)).text.text =
      dedent table.tabWidth body.indent
        (((table.lines.drop body.marker).take (last - body.marker)).map Line.chars) := by
  split
  · rfl
  next hle =>
  rw [Nat.sub_eq_zero_of_le (Nat.not_lt.1 hle)]
  rfl

/-- In front of a line that ends it a body is closed behind the last of its lines. -/
theorem exists_last_of_ends {n : Nat} {ahead : Line} (hle : body.marker ≤ n)
    (hahead : table.get? (n + 1) = some ahead) (hends : ahead.Ends body.indent) :
    ∃ last, body.marker ≤ last ∧ last ≤ n ∧
      (table.lines.drop body.marker).take (last - body.marker) =
        table.bodyLines body.marker (n + 1) ∧
      body.step table n =
        some (body.close table (if body.marker < last then some last else none)) := by
  have hsize := Nat.le_of_succ_le (LineTable.le_size_of_get? hahead)
  unfold LineTable.bodyLines
  rw [Nat.add_sub_cancel, hahead, Option.any_some]
  cases hmarker : ahead.isMarker with
  | true =>
    refine ⟨n, hle, Nat.le_refl n, rfl, ?_⟩
    rw [step, hahead]
    exact if_pos hmarker
  | false =>
    obtain ⟨hfilled, hleft⟩ := hends.resolve_left (by simp [hmarker])
    refine ⟨lastFilled table body.marker n, le_lastFilled hle, lastFilled_le _ _ _,
      take_lastFilled hle hsize, ?_⟩
    rw [step_of_filled hahead hmarker hfilled, if_pos hleft]

end OpenBody

/-! ## What a body holds -/

/-- A closed body of a marker line holds these lines of a text: its text are the lines without
their indentation, and its span is where the lines are. -/
structure ClosedBody.Holds (closed : ClosedBody) (source : List Char) (table : LineTable)
    (marker : Nat) (lines : List Line) : Prop where
  startLine : closed.text.startLine = marker + 1
  text : ∃ left, closed.text.text = joinWith ['\n'] left ∧
    List.Forall₂ (fun line left => ∃ lead, line.chars = lead ++ left ∧
      Strips table.tabWidth (table.bodyIndent marker) lead left) lines left
  slice : unlines ((table.lines.take marker).map Line.chars) ++
    joinWith ['\n'] (lines.map Line.chars) <+: source
  start : closed.start = byteSize (unlines ((table.lines.take marker).map Line.chars))
  stop : closed.stop = closed.start + byteSize (joinWith ['\n'] (lines.map Line.chars))

/-- Lines that lose their indentation. -/
theorem exists_forall₂_strips (tabWidth width : Nat) (lines : List Line) :
    ∃ left, dedent tabWidth width (lines.map Line.chars) = joinWith ['\n'] left ∧
      List.Forall₂ (fun line left => ∃ lead, line.chars = lead ++ left ∧
        Strips tabWidth width lead left) lines left := by
  refine ⟨(lines.map Line.chars).map (dedentLine tabWidth width), rfl, ?_⟩
  rw [List.map_map, List.forall₂_map_right_iff]
  exact List.forall₂_same.2 fun line _ => exists_strips tabWidth width line.chars

/-- Some lines, and the next ones up to a line, with line feeds between them. -/
theorem Text.unlines_take_append_joinWith {lines : List (List Char)} {last : Nat}
    {chars : List Char} (hlast : lines[last]? = some chars) (hle : m ≤ last) :
    unlines (lines.take m) ++ joinWith ['\n'] ((lines.drop m).take (last + 1 - m)) =
      unlines (lines.take last) ++ chars := by
  have hsnoc : (lines.drop m).take (last + 1 - m) = (lines.drop m).take (last - m) ++ [chars] := by
    rw [Nat.succ_sub hle, List.take_add_one, List.getElem?_drop, Nat.add_sub_cancel' hle, hlast]
    rfl
  have hfront : lines.take m ++ (lines.drop m).take (last - m) = lines.take last := by
    rw [← List.take_add, Nat.add_sub_cancel' hle]
  have happend : unlines (lines.take m) ++ unlines ((lines.drop m).take (last - m)) =
      unlines (lines.take last) := by
    rw [← hfront]
    exact List.flatMap_append.symm
  rw [hsnoc, joinWith_append_singleton, ← List.append_assoc, happend]

/-- The bytes of some lines of a text. -/
theorem LineTable.slice_of_get? (hclosed : text.getLast? = some '\n') {last : Nat} {line : Line}
    (hlt : m < last) (hline : (LineTable.ofText tabWidth text).get? last = some line) :
    unlines ((splitLines text).take m) ++
        joinWith ['\n'] (((splitLines text).drop m).take (last - m)) <+: text ∧
      line.stop = byteSize (unlines ((splitLines text).take m)) +
        byteSize (joinWith ['\n'] (((splitLines text).drop m).take (last - m))) := by
  obtain ⟨i, rfl, hget, -, hstart⟩ := exists_of_get?_ofText hline
  have hle : m ≤ i := Nat.le_of_lt_succ hlt
  have hjoin := unlines_take_append_joinWith hget hle
  obtain ⟨lexeme, htext, hsplit⟩ := Scan.exists_split_of_lines (.inr hclosed) hget hle
  refine ⟨?_, ?_⟩
  · rw [hjoin, ← hsplit]
    exact ⟨_, htext.symm⟩
  · rw [← byteSize_append, hjoin, byteSize_append, Line.stop, hstart]

namespace OpenBody

variable {marker : Line}

/-- A body that is closed behind a line of its text holds the lines up to there. -/
theorem holds_close (hclosed : text.getLast? = some '\n') {last : Nat}
    (hbody : body = .ofMarker (.ofText tabWidth text) marker)
    (hmarker : marker.number < (LineTable.ofText tabWidth text).size)
    (hlast : last ≤ (LineTable.ofText tabWidth text).size) :
    (body.close (.ofText tabWidth text) (if body.marker < last then some last else none)).Holds text
      (.ofText tabWidth text) body.marker
      (((LineTable.ofText tabWidth text).lines.drop body.marker).take (last - body.marker)) := by
  have hchars : (LineTable.ofText tabWidth text).lines.map Line.chars = splitLines text :=
    LineTable.map_chars_ofText tabWidth text
  -- The text of the body starts on the line behind its marker.
  have hstart : body.start = byteSize (unlines ((splitLines text).take body.marker)) := by
    obtain ⟨first, hfirst⟩ := (LineTable.ofText tabWidth text).exists_get? (marker.number + 1)
      (Nat.succ_pos _) hmarker
    obtain ⟨i, hi, -, -, hbytes⟩ := LineTable.exists_of_get?_ofText hfirst
    obtain rfl : i = marker.number := (Nat.succ.inj hi).symm
    rw [hbody, ofMarker, hfirst, ← hbytes]
    rfl
  have hindent : body.indent = (LineTable.ofText tabWidth text).bodyIndent body.marker := by
    rw [hbody]
    rfl
  obtain ⟨left, hleft, hstrips⟩ := exists_forall₂_strips tabWidth body.indent
    (((LineTable.ofText tabWidth text).lines.drop body.marker).take (last - body.marker))
  rw [hindent] at hstrips
  have htext := (text_close (.ofText tabWidth text) body last).trans hleft
  have htake : (((LineTable.ofText tabWidth text).lines.drop body.marker).take
      (last - body.marker)).map Line.chars =
        ((splitLines text).drop body.marker).take (last - body.marker) := by
    rw [List.map_take, List.map_drop, hchars]
  by_cases hfilled : body.marker < last
  · obtain ⟨line, hline⟩ := (LineTable.ofText tabWidth text).exists_get? last (by omega) hlast
    obtain ⟨hslice, hstop⟩ := LineTable.slice_of_get? hclosed hfilled hline
    rw [if_pos hfilled] at htext ⊢
    refine ⟨rfl, ⟨left, htext, hstrips⟩, ?_, ?_, ?_⟩
    · rw [htake, List.map_take, hchars]
      exact hslice
    · rw [List.map_take, hchars]
      exact hstart
    · rw [htake, close, hstart, ← hstop, Option.bind_some, hline]
      rfl
  · rw [if_neg hfilled] at htext ⊢
    rw [Nat.sub_eq_zero_of_le (Nat.not_lt.1 hfilled), List.take_zero] at hstrips ⊢
    refine ⟨rfl, ⟨left, htext, hstrips⟩, ?_, ?_, rfl⟩
    · rw [List.map_take, hchars]
      show unlines ((splitLines text).take body.marker) ++ [] <+: text
      rw [List.append_nil]
      exact ⟨_, Scan.unlines_take_append_drop (.inr hclosed) body.marker⟩
    · rw [List.map_take, hchars]
      exact hstart

/-- In front of the line that ends it a body holds its lines. -/
theorem exists_holds (hclosed : text.getLast? = some '\n')
    (hmarker : (LineTable.ofText tabWidth text).get? m = some marker)
    (hends : (LineTable.ofText tabWidth text).EndsBody m b) :
    ∃ closed, (OpenBody.ofMarker (.ofText tabWidth text) marker).step (.ofText tabWidth text)
        (b - 1) = some closed ∧
      closed.Holds text (.ofText tabWidth text) m
        ((LineTable.ofText tabWidth text).bodyLines m b) := by
  obtain rfl : marker.number = m := LineTable.numbered_ofText tabWidth text _ _ hmarker
  obtain ⟨n, rfl⟩ := Nat.exists_eq_succ_of_ne_zero (Nat.ne_of_gt (Nat.zero_lt_of_lt hends.lt))
  obtain ⟨ahead, hahead, hline⟩ := hends.ends
  have hsize : n < (LineTable.ofText tabWidth text).size := LineTable.le_size_of_get? hahead
  have hle : marker.number ≤ n := Nat.le_of_lt_succ hends.lt
  generalize hbody : ofMarker (.ofText tabWidth text) marker = body
  have hnumber : body.marker = marker.number := hbody ▸ rfl
  have hindent : body.indent = (LineTable.ofText tabWidth text).bodyIndent marker.number :=
    hbody ▸ rfl
  rw [← hindent] at hline
  rw [← hnumber] at hle
  obtain ⟨last, -, hlast, hlines, hstep⟩ := exists_last_of_ends hle hahead hline
  have hholds := holds_close hclosed hbody.symm (by omega : marker.number < _) (by omega : last ≤ _)
  rw [hlines, hnumber] at hholds
  rw [hnumber] at hstep
  exact ⟨_, hstep, hholds⟩

/-- Where no line ends it, or not yet, a body stays open. -/
theorem step_eq_none_of_lines {n : Nat}
    (hmarker : (LineTable.ofText tabWidth text).get? m = some marker)
    (h : ∀ line, (LineTable.ofText tabWidth text).get? (n + 1) = some line →
      ¬ line.Ends ((LineTable.ofText tabWidth text).bodyIndent m)) :
    (OpenBody.ofMarker (.ofText tabWidth text) marker).step (.ofText tabWidth text) n = none := by
  obtain rfl : marker.number = m := LineTable.numbered_ofText tabWidth text _ _ hmarker
  exact step_eq_none h

end OpenBody

/-- The indentation of a body is that of the first line behind its marker that is not blank. -/
theorem LineTable.bodyIndent_of_first {n : Nat} {line : Line} (hlt : m < n)
    (hline : table.get? n = some line) (hfilled : line.isBlank = false)
    (hblank : ∀ i, m < i → i < n → (table.get? i).any Line.isBlank = true) :
    table.bodyIndent m = line.indent := by
  obtain ⟨d, rfl⟩ := Nat.exists_eq_add_of_lt hlt
  refine bodyIndent_eq (Nat.succ_pos d) hline hfilled fun i hi hid => ?_
  obtain ⟨other, hother, hotherBlank⟩ :=
    Option.any_eq_true _ _ |>.1 (hblank (m + i) (by omega) (by omega))
  rw [hother, Option.any_some, hotherBlank]
  rfl

/-- If some line ends the body of a marker, there is a first one. -/
theorem LineTable.exists_endsBody {n : Nat} {line : Line} (hlt : m < n)
    (hline : table.get? n = some line) (hends : line.Ends (table.bodyIndent m)) :
    ∃ b, b ≤ n ∧ table.EndsBody m b := by
  let IsEnd (n : Nat) : Prop :=
    m < n ∧ ∃ line, table.get? n = some line ∧ line.Ends (table.bodyIndent m)
  have hexists : ∃ n, IsEnd n := ⟨n, hlt, line, hline, hends⟩
  classical
  obtain ⟨hfirst, hfound⟩ := Nat.find_spec hexists
  refine ⟨Nat.find hexists, Nat.find_min' hexists ⟨hlt, line, hline, hends⟩, hfirst, hfound, ?_⟩
  intro i other hi hbefore hother hotherEnds
  exact Nat.find_min hexists hbefore ⟨hi, other, hother, hotherEnds⟩

/-! ## Bodies that a scan has open -/

namespace Scan

variable {s t : Scan} {outer : List Activation} {pieces : List Piece}

/-- A body that is open was opened by a step in a block, and nothing was yielded since then. -/
theorem Run.exists_opening (hnumbered : table.Numbered) (hrun : Run table s pieces t)
    (hway : OnWay table text s) (hmodes : t.modes = .body body :: outer) :
    (s.modes = .body body :: outer ∧ pieces = []) ∨
      ∃ before u v, Run table s before u ∧ u.isDone = false ∧ u.step table = (v, none) ∧
        u.mode = .block ∧ v.modes = .body body :: u.modes ∧ outer = u.modes ∧ Run table v [] t := by
  induction hrun with
  | refl s => exact .inl ⟨hmodes, rfl⟩
  | @quiet s s' t pieces hs hstep hrest ih =>
    rcases ih (hway.step none hnumbered hs hstep) hmodes with ⟨hopen, rfl⟩ |
      ⟨before, u, v, hbefore, hopening⟩
    · by_cases hin : ∃ body' outer', s.modes = .body body' :: outer'
      · obtain ⟨body', outer', hin⟩ := hin
        obtain ⟨-, ⟨-, -, hsame⟩ | ⟨closed, -, -, hpiece⟩⟩ := step_in_body none hin hstep
        · exact .inl ⟨hsame.symm.trans hopen, rfl⟩
        · cases hpiece
      · obtain ⟨-, hmode, rfl⟩ := (effect_of_step_quiet hstep).1.opens_body hway.stacked
          (fun outer' hout => hin ⟨body, outer', hout⟩) hopen
        exact .inr ⟨[], s, s', .refl s, hs, hstep, hmode, hopen, rfl, hrest⟩
    · exact .inr ⟨before, u, v, .quiet hs hstep hbefore, hopening⟩
  | @piece s s' s'' t piece pieces hs hstep hsettles hrest ih =>
    have hway' := (hway.step (some piece) hnumbered hs hstep).settles hsettles
    rcases ih hway' hmodes with ⟨hopen, -⟩ | ⟨before, u, v, hbefore, hopening⟩
    · rw [hsettles.same.1] at hopen
      exact absurd hopen (hway.not_body_of_step hs hstep body outer)
    · exact .inr ⟨piece :: before, u, v, .piece hs hstep hsettles hbefore, hopening⟩

/-- A body that stays open did not end with any line that was passed. -/
theorem Run.steps_in_body (hrun : Run table s [] t) (hmodes : s.modes = .body body :: outer) :
    s.position.line ≤ t.position.line ∧ t.modes = .body body :: outer ∧
      ∀ n, s.position.line ≤ n → n < t.position.line → body.step table n = none := by
  generalize hnil : ([] : List Piece) = pieces at hrun
  induction hrun with
  | refl s => exact ⟨Nat.le_refl _, hmodes, fun n hle hlt => absurd hle (Nat.not_le_of_lt hlt)⟩
  | quiet hs hstep _ ih =>
    obtain ⟨hline, ⟨hstays, -, hsame⟩ | ⟨closed, -, -, hpiece⟩⟩ := step_in_body none hmodes hstep
    · obtain ⟨hle, htmodes, hlines⟩ := ih (hsame.trans hmodes) hnil
      rw [hline] at hle hlines
      refine ⟨Nat.le_of_succ_le hle, htmodes, fun n hn hlt => ?_⟩
      rcases Nat.eq_or_lt_of_le hn with rfl | hbehind
      · exact hstays
      · exact hlines n hbehind hlt
    · cases hpiece
  | piece => cases hnil

/-- A scan in a body: the body is that of a marker line, it did not end with any line since then,
and the next step takes the line at the place of the scan and asks whether it ends with this one. -/
structure StepsThrough (table : LineTable) (body : OpenBody) (outer : List Activation) (s : Scan) :
    Prop where
  opened : ∃ marker, table.get? body.marker = some marker ∧ body = .ofMarker table marker
  le : body.marker ≤ s.position.line
  stays : ∀ n, body.marker ≤ n → n < s.position.line → body.step table n = none
  next : s.isDone = false → s.rest ≠ [] → ∃ t,
    s.step table = (t, (body.step table s.position.line).map fun closed => .ok closed.piece) ∧
      t.position.line = s.position.line + 1 ∧
      t.modes = if (body.step table s.position.line).isSome then outer else s.modes

/-- Every body that a scan has open is stepped through in this way. -/
theorem stepsThrough_of_run (hnumbered : table.Numbered) (hclosed : text.getLast? = some '\n')
    (hrun : Run table s pieces t) (hway : OnWay table text s) (hstart : s.modes = [])
    (hmodes : t.modes = .body body :: outer) : StepsThrough table body outer t := by
  rcases hrun.exists_opening hnumbered hway hmodes with ⟨hopen, -⟩ |
    ⟨before, u, v, hbefore, hu, hstep, hmode, hopen, rfl, hlater⟩
  · cases hstart.symm.trans hopen
  obtain ⟨marker, hmarker, hbody, hline, -⟩ := exists_marker_of_step hstep hmode hopen
  have hnumber : body.marker = v.position.line := by
    rw [hline, hbody]
    exact hnumbered _ _ hmarker
  obtain ⟨hle, -, hstays⟩ := hlater.steps_in_body hopen
  refine ⟨⟨marker, ?_, hbody⟩, hnumber ▸ hle, hnumber ▸ hstays, fun ht hrest => ?_⟩
  · rw [hnumber, hline]
    exact hmarker
  · have hstands := (hway.run hnumbered hrun).stands
    have hfeed := List.mem_of_getLast? ((hstands.closed_rest (.inr hclosed)).resolve_left hrest)
    obtain ⟨front, left, hsplit, hfront⟩ := List.eq_append_cons_of_mem hfeed
    have hline {p : Position} (hp : p = t.position.after (front ++ ['\n'])) :
        p.line = t.position.line + 1 := by
      rw [hp, Position.line_after, List.count_append, List.count_eq_zero.2 hfront]
      rfl
    cases hends : body.step table t.position.line with
    | none =>
      obtain ⟨w, hnext, -, hposition, hsame, -⟩ :=
        step_of_bodyLine hmodes ht hfront hsplit hends
      exact ⟨w, hnext, hline hposition, hsame⟩
    | some closed =>
      obtain ⟨w, hnext, -, hposition, hbehind⟩ := step_of_bodyLine hmodes ht hfront hsplit hends
      exact ⟨w, hnext, hline hposition, hbehind.modes⟩

end Scan

/-! ## All together -/

end BlockLexer
