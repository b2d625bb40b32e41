import BlockLexer.Proofs.Finished
import BlockLexer.Proofs.Shifted
import Mathlib.Data.List.Forall2

/-!
# Texts behind a margin

An import puts the same blanks in front of every line of a file, but for the empty ones.
Every indentation of the file is larger then by the same width, and a body that takes its
indentation off its lines takes the blanks off with it.

* `Text.pushed` is a line behind blanks, `Line.Pushed` are two lines of tables and
  `LineTable.IsPushed` two tables.
* `dedentLine_append`: what is taken off a line behind blanks.
* `Shift.margin` is what the numbers differ by, and the lemmas behind it say that the two
  tables answer the same.
-/

namespace BlockLexer

open Text

/-! ## Lines -/

/-- A line behind blanks.  An empty line stays empty. -/
def Text.pushed (blanks line : List Char) : List Char :=
  if line.isEmpty then line else blanks ++ line

@[simp] theorem Text.pushed_nil (blanks : List Char) : pushed blanks [] = [] := rfl

theorem Text.pushed_of_ne_nil {line : List Char} (blanks : List Char) (hne : line ≠ []) :
    pushed blanks line = blanks ++ line := by
  rw [pushed, if_neg (mt List.isEmpty_iff.1 hne)]

/-- A line of a table, and the line behind blanks. -/
structure Line.Pushed (tabWidth : Nat) (blanks : List Char) (line line' : Line) : Prop where
  number : line'.number = line.number
  chars : line'.chars = pushed blanks line.chars
  indent : line.indent = indentWidth tabWidth line.chars
  moved : line'.indent = indentWidth tabWidth line'.chars

section Lines

variable {tabWidth : Nat} {blanks : List Char} (hblanks : ∀ c ∈ blanks, Text.isBlank c = true)

include hblanks

/-- A body takes the blanks in front of its lines off with its own indentation, even where a
line has less of it than the others.  A tab without a width would not be taken off. -/
theorem dedentLine_append (htab : 0 < tabWidth) (width : Nat) (cs : List Char) :
    dedentLine tabWidth (width + indentWidth tabWidth blanks) (blanks ++ cs) =
      dedentLine tabWidth width cs := by
  induction blanks with
  | nil => rfl
  | cons c blanks ih =>
    obtain ⟨hc, hmore⟩ := List.forall_mem_cons.1 hblanks
    have hwidth : indentWidth tabWidth (c :: blanks) =
        blankWidth tabWidth c + indentWidth tabWidth blanks := by
      unfold indentWidth
      rw [List.takeWhile_cons_of_pos hc, List.foldr_cons]
    have hpos : 0 < blankWidth tabWidth c := by
      unfold blankWidth
      split <;> omega
    have hleft : width + indentWidth tabWidth (c :: blanks) - blankWidth tabWidth c =
        width + indentWidth tabWidth blanks := by
      omega
    obtain ⟨n, hn⟩ := Nat.exists_eq_succ_of_ne_zero
      (n := width + indentWidth tabWidth (c :: blanks)) (by omega)
    rw [List.cons_append, hn]
    rw [hn] at hleft
    have hsame : c = ' ' ∨ c = '\t' := by simpa [Text.isBlank] using hc
    rcases hsame with rfl | rfl
    · change n + 1 - 1 = _ at hleft
      rw [dedentLine, hleft]
      · exact ih hmore
      · simp
    · change n + 1 - tabWidth = _ at hleft
      rw [dedentLine, hleft]
      · exact ih hmore
      · simp

theorem dedentLine_pushed (htab : 0 < tabWidth) (width : Nat) (line : List Char) :
    dedentLine tabWidth (width + indentWidth tabWidth blanks) (pushed blanks line) =
      dedentLine tabWidth width line := by
  by_cases hne : line = []
  · subst hne
    have hnil (width : Nat) : dedentLine tabWidth width [] = [] := by
      cases width <;> rfl
    rw [pushed_nil, hnil, hnil]
  · rw [pushed_of_ne_nil blanks hne, dedentLine_append hblanks htab]

namespace Line.Pushed

variable {line line' : Line} (h : line.Pushed tabWidth blanks line')

include h

theorem content_eq : line'.content = line.content := by
  by_cases hne : line.chars = []
  · have hchars := h.chars
    rw [hne, pushed_nil, ← hne] at hchars
    rw [content, content, hchars]
  · exact content_of_chars_append hblanks (h.chars.trans (pushed_of_ne_nil blanks hne))

theorem comment?_eq : line'.comment? = line.comment? := by
  by_cases hne : line.chars = []
  · have hchars := h.chars
    rw [hne, pushed_nil, ← hne] at hchars
    rw [comment?, comment?, hchars]
  · exact comment?_of_chars_append hblanks (h.chars.trans (pushed_of_ne_nil blanks hne))

theorem isMarker_eq : line'.isMarker = line.isMarker := by
  rw [isMarker, isMarker, h.content_eq hblanks]

theorem isEnd_eq : line'.isEnd = line.isEnd := by
  rw [isEnd, isEnd, h.content_eq hblanks]

theorem hasContent_eq : line'.hasContent = line.hasContent := by
  rw [hasContent, hasContent, h.content_eq hblanks]

theorem isBlank_eq : line'.isBlank = line.isBlank := by
  rw [isBlank, isBlank, h.hasContent_eq hblanks, h.comment?_eq hblanks]

/-- Every line that is not empty is further to the right. -/
theorem indent_eq (hne : line.chars ≠ []) :
    line'.indent = line.indent + indentWidth tabWidth blanks := by
  rw [h.moved, h.chars, pushed_of_ne_nil blanks hne, indentWidth_append tabWidth hblanks, h.indent,
    Nat.add_comm]

omit hblanks h in
theorem chars_ne_nil_of_isBlank (hfilled : line.isBlank = false) : line.chars ≠ [] := by
  intro hnil
  rw [isBlank, hasContent, content, comment?, hnil] at hfilled
  cases hfilled

omit hblanks h in
theorem chars_ne_nil_of_hasContent (hcontent : line.hasContent = true) : line.chars ≠ [] := by
  intro hnil
  rw [hasContent, content, hnil] at hcontent
  cases hcontent

end Line.Pushed

end Lines

/-! ## Tables -/

section Related

variable {α β : Type} {r : α → β → Prop} {as : List α} {bs : List β}

theorem rel_head? (h : List.Forall₂ r as bs) : Option.Rel r as.head? bs.head? := by
  cases h with
  | nil => exact .none
  | cons hfirst _ => exact .some hfirst

/-- What is found by a property that related elements have in common. -/
theorem rel_find? {p : α → Bool} {q : β → Bool} (hp : ∀ {a b}, r a b → q b = p a)
    (h : List.Forall₂ r as bs) : Option.Rel r (as.find? p) (bs.find? q) := by
  induction h with
  | nil => exact .none
  | @cons a b as bs hfirst _ ih =>
    have hsame := hp hfirst
    cases hfound : p a with
    | true =>
      rw [hfound] at hsame
      rw [List.find?_cons_of_pos hfound, List.find?_cons_of_pos hsame]
      exact .some hfirst
    | false =>
      rw [hfound] at hsame
      rw [List.find?_cons_of_neg (by simp [hfound]), List.find?_cons_of_neg (by simp [hsame])]
      exact ih

end Related

/-- Two tables, of a text and of the same text behind blanks. -/
structure LineTable.IsPushed (blanks : List Char) (table table' : LineTable) : Prop where
  tabWidth : table'.tabWidth = table.tabWidth
  lines : List.Forall₂ (Line.Pushed table.tabWidth blanks) table.lines table'.lines

namespace LineTable

variable {tabWidth : Nat} {blanks : List Char}

theorem forall₂_place (number start start' : Nat) (lines : List (List Char)) :
    List.Forall₂ (Line.Pushed tabWidth blanks) (place tabWidth number start lines)
      (place tabWidth number start' (lines.map (pushed blanks))) := by
  induction lines generalizing number start start' with
  | nil => exact .nil
  | cons line lines ih => exact .cons ⟨rfl, rfl, rfl, rfl⟩ (ih _ _ _)

/-- The tables of lines and of the same lines behind blanks. -/
theorem isPushed_unlines {lines : List (List Char)} (h : ∀ line ∈ lines, '\n' ∉ line)
    (hblanks : '\n' ∉ blanks) :
    (ofText tabWidth (unlines lines)).IsPushed blanks
      (ofText tabWidth (unlines (lines.map (pushed blanks)))) := by
  have h' : ∀ line ∈ lines.map (pushed blanks), '\n' ∉ line := by
    intro moved hmoved
    obtain ⟨line, hline, rfl⟩ := List.mem_map.1 hmoved
    unfold pushed
    split
    · exact h line hline
    · rw [List.mem_append, not_or]
      exact ⟨hblanks, h line hline⟩
  refine ⟨rfl, ?_⟩
  unfold ofText
  rw [splitLines_unlines lines h, splitLines_unlines _ h']
  exact forall₂_place 1 0 0 lines

namespace IsPushed

variable {table table' : LineTable} {number : Nat} (h : table.IsPushed blanks table')

include h

theorem get?_rel (number : Nat) :
    Option.Rel (Line.Pushed table.tabWidth blanks) (table.get? number) (table'.get? number) := by
  cases number with
  | zero => exact .none
  | succ n =>
    rw [get?_succ, get?_succ, ← List.head?_drop, ← List.head?_drop]
    exact rel_head? (List.forall₂_drop n h.lines)

/-- A line that is not empty is further to the right. -/
theorem indentOf_eq (hblanks : ∀ c ∈ blanks, isBlank c = true) {line : Line}
    (hline : table.get? number = some line) (hne : line.chars ≠ []) :
    table'.indentOf number = table.indentOf number + indentWidth table.tabWidth blanks := by
  have hrel := h.get?_rel number
  rw [hline] at hrel
  obtain ⟨line', hmoved, hpushed⟩ := exists_of_rel_some hrel
  rw [indentOf, indentOf, hline, hmoved]
  exact hpushed.indent_eq hblanks hne

theorem find?_rel (number : Nat) {p : Line → Bool}
    (hp : ∀ {line line' : Line}, line.Pushed table.tabWidth blanks line' → p line' = p line) :
    Option.Rel (Line.Pushed table.tabWidth blanks) ((table.lines.drop number).find? p)
      ((table'.lines.drop number).find? p) :=
  rel_find? hp (List.forall₂_drop number h.lines)

theorem nextContentAfter_eq (hblanks : ∀ c ∈ blanks, isBlank c = true) (number : Nat) :
    ((table'.nextContentAfter number).map fun line => (line.indent, line.isEnd)) =
      (table.nextContentAfter number).map fun line =>
        (line.indent + indentWidth table.tabWidth blanks, line.isEnd) := by
  have hrel := h.find?_rel number fun hpushed => hpushed.hasContent_eq hblanks
  rw [nextContentAfter, nextContentAfter]
  cases hfound : (table.lines.drop number).find? Line.hasContent with
  | none =>
    rw [hfound] at hrel
    rw [eq_none_of_rel hrel]
    rfl
  | some line =>
    have hne := Line.Pushed.chars_ne_nil_of_hasContent (List.find?_some hfound)
    rw [hfound] at hrel
    obtain ⟨line', hmoved, hpushed⟩ := exists_of_rel_some hrel
    rw [hmoved, Option.map_some, Option.map_some, hpushed.indent_eq hblanks hne,
      hpushed.isEnd_eq hblanks]

/-- A body is further to the right, if it has a line at all. -/
theorem bodyIndent_eq (hblanks : ∀ c ∈ blanks, isBlank c = true) {number : Nat}
    (hfilled : ∃ line ∈ table.lines.drop number, (!line.isBlank) = true) :
    table'.bodyIndent number = table.bodyIndent number + indentWidth table.tabWidth blanks := by
  have hrel := h.find?_rel number (p := fun line => !line.isBlank) fun hpushed => by
    rw [hpushed.isBlank_eq hblanks]
  obtain ⟨line, hfound⟩ := Option.isSome_iff_exists.1 (List.find?_isSome.2 hfilled)
  have hne : line.chars ≠ [] := by
    apply Line.Pushed.chars_ne_nil_of_isBlank
    simpa using List.find?_some hfound
  rw [hfound] at hrel
  obtain ⟨line', hmoved, hpushed⟩ := exists_of_rel_some hrel
  rw [bodyIndent, bodyIndent, hfound, hmoved]
  exact hpushed.indent_eq hblanks hne

theorem lastFilled_eq (hblanks : ∀ c ∈ blanks, isBlank c = true) (marker number : Nat) :
    OpenBody.lastFilled table' marker number = OpenBody.lastFilled table marker number := by
  induction number with
  | zero => rfl
  | succ number ih =>
    have hblank : (table'.get? (number + 1)).any Line.isBlank =
        (table.get? (number + 1)).any Line.isBlank := by
      have hrel := h.get?_rel (number + 1)
      cases hline : table.get? (number + 1) with
      | none =>
        rw [hline] at hrel
        rw [eq_none_of_rel hrel]
      | some line =>
        rw [hline] at hrel
        obtain ⟨line', hmoved, hpushed⟩ := exists_of_rel_some hrel
        rw [hmoved]
        exact hpushed.isBlank_eq hblanks
    rw [OpenBody.lastFilled, OpenBody.lastFilled, hblank, ih]

/-- The text of a body is the same. -/
theorem dedent_eq (hblanks : ∀ c ∈ blanks, isBlank c = true) (htab : 0 < table.tabWidth)
    (width marker count : Nat) :
    dedent table'.tabWidth (width + indentWidth table.tabWidth blanks)
        (((table'.lines.drop marker).take count).map Line.chars) =
      dedent table.tabWidth width (((table.lines.drop marker).take count).map Line.chars) := by
  have hlines := List.forall₂_take count (List.forall₂_drop marker h.lines)
  have hsame : List.Forall₂ Eq
      (((table.lines.drop marker).take count).map fun line =>
        dedentLine table.tabWidth width line.chars)
      (((table'.lines.drop marker).take count).map fun line =>
        dedentLine table.tabWidth (width + indentWidth table.tabWidth blanks) line.chars) := by
    rw [List.forall₂_map_left_iff, List.forall₂_map_right_iff]
    refine hlines.imp fun line line' hpushed => ?_
    rw [hpushed.chars, dedentLine_pushed hblanks htab]
  rw [List.forall₂_eq_eq_eq] at hsame
  unfold dedent
  rw [h.tabWidth, List.map_map, List.map_map]
  exact congrArg (joinWith ['\n']) hsame.symm

end IsPushed

end LineTable

/-! ## The shift -/

namespace Shift

/-- The shift by blanks in front of the lines.  Bytes are left out of account. -/
def margin (tabWidth : Nat) (blanks : List Char) : Shift where
  lines := 0
  width := indentWidth tabWidth blanks
  bytes _ _ := True
  bytes_add _ _ := trivial

variable {table table' : LineTable} {blanks : List Char} (h : table.IsPushed blanks table')
  (hblanks : ∀ c ∈ blanks, isBlank c = true)

include h hblanks

theorem bodies_margin {marker marker' : Line}
    (hmarker : marker.Pushed table.tabWidth blanks marker')
    (hfilled : ∃ line ∈ table.lines.drop marker.number, (!line.isBlank) = true) :
    (margin table.tabWidth blanks).Bodies (.ofMarker table marker) (.ofMarker table' marker') := by
  refine ⟨hmarker.number, trivial, ?_, ?_⟩
  · show table'.bodyIndent marker'.number = _
    rw [hmarker.number]
    exact h.bodyIndent_eq hblanks hfilled
  · show bodyNames marker'.content = bodyNames marker.content
    rw [hmarker.content_eq hblanks]

theorem closings_margin (htab : 0 < table.tabWidth) {body body' : OpenBody}
    (hbodies : (margin table.tabWidth blanks).Bodies body body') (last? : Option Nat) :
    (margin table.tabWidth blanks).Closings (body.close table last?)
      (body'.close table' last?) := by
  have hmarker : body'.marker = body.marker := hbodies.marker
  have hindent : body'.indent = body.indent + indentWidth table.tabWidth blanks := hbodies.indent
  refine ⟨?_, trivial, trivial⟩
  show BodyText.mk _ _ _ = BodyText.mk _ _ _
  rw [BodyText.mk.injEq]
  refine ⟨?_, ?_, hbodies.names⟩
  · show body'.marker + 1 = body.marker + 1
    rw [hmarker]
  · cases last? with
    | none => rfl
    | some last =>
      dsimp only
      rw [hmarker, hindent]
      exact h.dedent_eq hblanks htab body.indent body.marker (last - body.marker)

/-- A body ends in front of the same line. -/
theorem step_margin (htab : 0 < table.tabWidth) {body body' : OpenBody}
    (hbodies : (margin table.tabWidth blanks).Bodies body body') (current : Nat) :
    Option.Rel (margin table.tabWidth blanks).Closings (body.step table current)
      (body'.step table' current) := by
  have hmarker : body'.marker = body.marker := hbodies.marker
  have hindent : body'.indent = body.indent + indentWidth table.tabWidth blanks := hbodies.indent
  have hrel := h.get?_rel (current + 1)
  unfold OpenBody.step
  cases hahead : table.get? (current + 1) with
  | none =>
    rw [hahead] at hrel
    rw [eq_none_of_rel hrel]
    exact .none
  | some ahead =>
    rw [hahead] at hrel
    obtain ⟨ahead', hahead', hpushed⟩ := exists_of_rel_some hrel
    rw [hahead']
    dsimp only
    rw [hpushed.isMarker_eq hblanks, hpushed.isBlank_eq hblanks, hmarker,
      h.lastFilled_eq hblanks]
    by_cases hend : ahead.isMarker = true
    · rw [if_pos hend, if_pos hend]
      exact .some (closings_margin h hblanks htab hbodies _)
    rw [if_neg hend, if_neg hend]
    -- Whether a line stands left of the body is asked only if there is something on it.
    have hleft : (!ahead.isBlank && decide (ahead'.indent < body'.indent)) =
        (!ahead.isBlank && decide (ahead.indent < body.indent)) := by
      cases hblank : ahead.isBlank with
      | true => rfl
      | false =>
        rw [hindent, hpushed.indent_eq hblanks (Line.Pushed.chars_ne_nil_of_isBlank hblank)]
        simp
    rw [hleft]
    split
    · exact .some (closings_margin h hblanks htab hbodies _)
    · exact .none

end Shift

end BlockLexer
