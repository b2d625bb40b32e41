import BlockLexer.Source

/-!
# Lines by number

A line table holds the lines of a text with what is measured of them.  These lemmas
answer the questions to a table from the lines of the text alone.

* `lineWidth` is the indentation of a line of a text, which is what a table gives.
* `LineTable.get?_ofText` is a line of a table with all that the table says of it.
* `LineTable.Ahead` are the lines that a table has from a number on, for those who read
  the lines one after the other.
-/

namespace BlockLexer

open Text

/-- The indentation of a line of a text, by its number from one.  A line that the text
does not have counts as zero. -/
def lineWidth (tabWidth : Nat) (text : List Char) : Nat → Nat
  | 0 => 0
  | n + 1 => ((splitLines text)[n]?).elim 0 (indentWidth tabWidth)

namespace LineTable

variable {table : LineTable} {number : Nat} {line line' : List Char} {lines : List (List Char)}

/-- A line that is placed keeps its characters and is measured by them. -/
theorem map_place (tabWidth number start : Nat) (ls : List (List Char)) :
    (place tabWidth number start ls).map (fun line => (line.indent, line.chars)) =
      ls.map fun cs => (indentWidth tabWidth cs, cs) := by
  induction ls generalizing number start with
  | nil => rfl
  | cons l ls ih => rw [place, List.map_cons, ih, List.map_cons]

/-- The indentation that a table gives is the one that the text has. -/
theorem indentOf_ofText (tabWidth : Nat) (text : List Char) (number : Nat) :
    (ofText tabWidth text).indentOf number = lineWidth tabWidth text number := by
  cases number with
  | zero => rfl
  | succ n =>
    have h := congrArg (fun placed => (placed[n]?).map Prod.fst)
      (map_place tabWidth 1 0 (splitLines text))
    simp only [List.getElem?_map, Option.map_map] at h
    rw [indentOf, get?_succ, lineWidth, ofText]
    cases hplaced : (place tabWidth 1 0 (splitLines text))[n]? with
    | none =>
      rw [hplaced, Option.map_none, eq_comm, Option.map_eq_none_iff] at h
      rw [h]
      rfl
    | some placed =>
      rw [hplaced, Option.map_some, eq_comm, Option.map_eq_some_iff] at h
      obtain ⟨cs, hcs, hwidth⟩ := h
      rw [hcs, Option.elim_some, Option.elim_some]
      exact hwidth.symm

/-- A table keeps the lines of its text. -/
theorem map_chars_ofText (tabWidth : Nat) (text : List Char) :
    (ofText tabWidth text).lines.map Line.chars = splitLines text := by
  have h := congrArg (List.map Prod.snd) (map_place tabWidth 1 0 (splitLines text))
  rw [List.map_map, List.map_map] at h
  simpa [Function.comp_def, ofText] using h

/-! ## One line by its number -/

theorem getElem?_place (tabWidth number start : Nat) (ls : List (List Char)) (i : Nat) :
    (place tabWidth number start ls)[i]? =
      (ls[i]?).map fun cs =>
        { number := number + i
          start := start + byteSize (unlines (ls.take i))
          indent := indentWidth tabWidth cs
          chars := cs } := by
  induction ls generalizing number start i with
  | nil => rfl
  | cons l ls ih =>
    cases i with
    | zero => simp [place]
    | succ i =>
      have hfeed : '\n'.utf8Size = 1 := rfl
      rw [place, List.getElem?_cons_succ, ih, List.getElem?_cons_succ, List.take_succ_cons,
        unlines_cons, byteSize_append, byteSize_cons, hfeed]
      congr 1
      funext cs
      rw [Line.mk.injEq]
      refine ⟨by omega, by omega, rfl, rfl⟩

/-- What a table says of a line: its number, the bytes in front of it, and its indentation. -/
theorem get?_ofText (tabWidth : Nat) (text : List Char) (n : Nat) :
    (ofText tabWidth text).get? (n + 1) =
      ((splitLines text)[n]?).map fun cs =>
        { number := n + 1
          start := byteSize (unlines ((splitLines text).take n))
          indent := indentWidth tabWidth cs
          chars := cs } := by
  rw [get?_succ, ofText, getElem?_place]
  simp only [Nat.zero_add, Nat.add_comm 1 n]

/-- The first of the lines that are left behind some lines of a table. -/
theorem get?_of_drop {number : Nat} {line : Line} {lines : List Line}
    (h : table.lines.drop number = line :: lines) :
    table.get? (number + 1) = some line ∧ table.lines.drop (number + 1) = lines := by
  constructor
  · rw [get?_succ, ← List.head?_drop, h]
    rfl
  · rw [← List.drop_drop, h]
    rfl

/-- The lines of a table count from one. -/
def Numbered (table : LineTable) : Prop :=
  ∀ n line, table.get? n = some line → line.number = n

theorem numbered_ofText (tabWidth : Nat) (text : List Char) : (ofText tabWidth text).Numbered := by
  intro n line hline
  cases n with
  | zero => cases hline
  | succ n =>
    rw [get?_ofText, Option.map_eq_some_iff] at hline
    obtain ⟨cs, -, rfl⟩ := hline
    rfl

/-- A line of a table is a line of its text, measured by its characters. -/
theorem exists_of_get?_ofText {tabWidth : Nat} {text : List Char} {n : Nat} {placed : Line}
    (h : (ofText tabWidth text).get? n = some placed) :
    ∃ i, n = i + 1 ∧ (splitLines text)[i]? = some placed.chars ∧
      placed.indent = indentWidth tabWidth placed.chars ∧
      placed.start = byteSize (unlines ((splitLines text).take i)) := by
  cases n with
  | zero => cases h
  | succ i =>
    rw [get?_ofText, Option.map_eq_some_iff] at h
    obtain ⟨cs, hcs, rfl⟩ := h
    exact ⟨i, rfl, hcs, rfl, rfl⟩

/-! ## Lines from a number on -/

/-- These are the lines of a table from a number on. -/
def Ahead (table : LineTable) (number : Nat) (lines : List (List Char)) : Prop :=
  0 < number ∧
    (table.lines.drop (number - 1)).map (fun line => (line.indent, line.chars)) =
      lines.map fun cs => (indentWidth table.tabWidth cs, cs)

theorem ahead_ofText (tabWidth : Nat) (text : List Char) :
    (ofText tabWidth text).Ahead 1 (splitLines text) :=
  ⟨Nat.one_pos, map_place tabWidth 1 0 (splitLines text)⟩

/-- The first of the lines, as the table holds it. -/
theorem Ahead.exists_line (h : table.Ahead number (line :: lines)) :
    ∃ placed more, table.lines.drop (number - 1) = placed :: more ∧
      placed.indent = indentWidth table.tabWidth line ∧ placed.chars = line := by
  obtain ⟨-, hlines⟩ := h
  rw [List.map_cons, List.map_eq_cons_iff] at hlines
  obtain ⟨placed, more, hdrop, hplaced, -⟩ := hlines
  obtain ⟨hindent, hchars⟩ := Prod.mk.inj hplaced
  exact ⟨placed, more, hdrop, hindent, hchars⟩

theorem Ahead.next (h : table.Ahead number (line :: lines)) : table.Ahead (number + 1) lines := by
  obtain ⟨hpos, hlines⟩ := h
  refine ⟨Nat.succ_pos number, ?_⟩
  have hdrop := congrArg (List.drop 1) hlines
  rw [List.map_cons, List.drop_succ_cons, List.drop_zero, ← List.map_drop, List.drop_drop] at hdrop
  rwa [Nat.add_sub_cancel, ← Nat.sub_add_cancel hpos]

theorem Ahead.append {before : List (List Char)} (h : table.Ahead number (before ++ lines)) :
    table.Ahead (number + before.length) lines := by
  induction before generalizing number with
  | nil => exact h
  | cons line before ih =>
    have hmore := ih h.next
    rwa [List.length_cons, Nat.add_comm before.length 1, ← Nat.add_assoc]

theorem Ahead.indentOf_eq (h : table.Ahead number (line :: lines)) :
    table.indentOf number = indentWidth table.tabWidth line := by
  obtain ⟨placed, more, hdrop, hindent, -⟩ := h.exists_line
  have hget : table.get? number = some placed := by
    obtain ⟨n, rfl⟩ := Nat.exists_eq_succ_of_ne_zero (Nat.ne_of_gt h.1)
    have hhead := congrArg List.head? hdrop
    rw [Nat.succ_sub_one, List.head?_drop] at hhead
    rw [get?_succ, hhead]
    rfl
  rw [indentOf, hget, Option.elim_some, hindent]

/-- The next line with content is the next line, if it has content. -/
theorem Ahead.exists_nextContent (h : table.Ahead number (line :: line' :: lines))
    (hcontent : ∀ placed : Line, placed.chars = line' → placed.hasContent = true) :
    ∃ placed, table.nextContentAfter number = some placed ∧
      placed.indent = indentWidth table.tabWidth line' ∧ placed.chars = line' := by
  obtain ⟨placed, more, hdrop, hindent, hchars⟩ := h.next.exists_line
  rw [Nat.add_sub_cancel] at hdrop
  refine ⟨placed, ?_, hindent, hchars⟩
  rw [nextContentAfter, hdrop, List.find?_cons, hcontent placed hchars]

end LineTable

end BlockLexer
