import BlockLexer.Proofs.MarkerNames
import BlockLexer.Proofs.OneLine
import BlockLexer.Proofs.StuckScans

/-!
# How a line table tiles its text

A table is cut once, and every later stage looks lines up by a number that the scan keeps on its
own.  This module says what stands in the lines, for texts with and without a line feed at their
end, and that a scan finds the line it is on.

* `Line.Parts` are the blanks, the content, the white space and the comment that make up a line, and
  `Line.exists_parts` says that every line has them.
* `LineTable.Tiles` is what a table says of a text, and `LineTable.tiles_ofText` that it does so
  of the text that it was made from.  It rests on `Text.exists_of_getElem?_splitLines`: what stands
  above a line and what follows it.
* `LineTable.Tiles.stop_lt`: the lines do not meet.
* `Scan.Reached.exists_line` is the line of a scan, and `LineTable.tiles_text_and_finds_cursor` puts
  the two together.
-/

namespace BlockLexer

open Text

/-! ## The parts of a line -/

/-- The parts of a line: blanks, its content, white space, and its comment with the semicolon. -/
structure Line.Parts (tabWidth : Nat) (line : Line) (blanks spaces remark : List Char) : Prop where
  chars : line.chars = blanks ++ (line.content ++ (spaces ++ remark))
  /-- The blanks are all those at the beginning, and the indentation is their width. -/
  leading : (∀ c ∈ blanks, Text.isBlank c = true) ∧
    Stops Text.isBlank (line.content ++ (spaces ++ remark))
  indent : line.indent = blanks.foldr (fun c width => blankWidth tabWidth c + width) 0
  /-- The white space is all that stands behind the content and in front of the comment. -/
  trailing : (∀ c ∈ spaces, isSpace c = true) ∧
    ∀ c, line.content.getLast? = some c → isSpace c = false
  /-- There is no semicolon in front of that of the comment. -/
  free : ';' ∉ blanks ++ (line.content ++ spaces)
  comment : remark = line.comment?.elim [] (';' :: ·)

/-- What is left when white space is trimmed does not end with white space. -/
theorem Text.isSpace_of_getLast?_trimEnd {cs : List Char} {c : Char}
    (h : (trimEnd cs).getLast? = some c) : isSpace c = false := by
  rw [trimEnd, List.getLast?_reverse] at h
  exact stops_dropWhile isSpace cs.reverse c h

/-- The comment of a line is what stands behind the first semicolon. -/
theorem Line.elim_comment? (line : Line) :
    line.comment?.elim [] (';' :: ·) = line.chars.dropWhile (· ≠ ';') := by
  have hstop := stops_dropWhile (· ≠ ';') line.chars
  unfold comment?
  cases hdrop : line.chars.dropWhile (· ≠ ';') with
  | nil => rfl
  | cons c cs =>
    have hc : c = ';' := by simpa using hstop c (by rw [hdrop]; rfl)
    rw [hc]
    rfl

/-- A line that is measured by its characters has its parts. -/
theorem Line.exists_parts {tabWidth : Nat} {line : Line}
    (h : line.indent = indentWidth tabWidth line.chars) :
    ∃ blanks spaces remark, line.Parts tabWidth blanks spaces remark := by
  obtain ⟨spaces, hspaces, hfree, hcontent⟩ := line.exists_content_append
  have hblanks : ∀ c ∈ line.chars.takeWhile Text.isBlank, Text.isBlank c = true :=
    fun c hc => List.mem_takeWhile_imp hc
  refine ⟨line.chars.takeWhile Text.isBlank, spaces,
    (line.chars.dropWhile Text.isBlank).dropWhile (· ≠ ';'), ?_, ⟨hblanks, ?_⟩, ?_, ⟨hspaces, ?_⟩,
    ?_, ?_⟩
  · rw [← hcontent, List.takeWhile_append_dropWhile]
  · rw [← hcontent]
    exact stops_dropWhile _ _
  · rw [h, indentWidth]
  · exact fun c => isSpace_of_getLast?_trimEnd
  · rw [List.mem_append, not_or]
    exact ⟨not_mem_of_isBlank hblanks rfl, hfree⟩
  · have hpass : ∀ c ∈ line.chars.takeWhile Text.isBlank, decide (c ≠ ';') = true :=
      fun c hc => decide_eq_true (ne_of_class (hblanks c hc) rfl)
    rw [elim_comment?, ← List.dropWhile_append_of_pos hpass, List.takeWhile_append_dropWhile]

/-! ## The lines of a text -/

theorem Text.splitLines_eq_nil_iff {cs : List Char} : splitLines cs = [] ↔ cs = [] := by
  refine ⟨fun h => ?_, fun h => by rw [h]; rfl⟩
  by_contra hne
  rw [splitLines_eq_cons hne] at h
  cases h

/-- A line of a text, with what stands above it and what follows it. -/
theorem Text.exists_of_getElem?_splitLines {text line : List Char} {i : Nat}
    (h : (splitLines text)[i]? = some line) :
    ∃ more, text = unlines ((splitLines text).take i) ++ (line ++ more) ∧ line ++ more ≠ [] ∧
      Stops (· ≠ '\n') more ∧ splitLines more.tail = (splitLines text).drop (i + 1) := by
  induction i generalizing text with
  | zero =>
    have hne : text ≠ [] := by
      rintro rfl
      cases h
    rw [splitLines_eq_cons hne] at h ⊢
    obtain rfl := Option.some.inj h
    have hsame : text.takeWhile (· ≠ '\n') ++ text.dropWhile (· ≠ '\n') = text :=
      List.takeWhile_append_dropWhile
    exact ⟨text.dropWhile (· ≠ '\n'), hsame.symm, by rwa [hsame], stops_dropWhile _ _, rfl⟩
  | succ i ih =>
    have hne : text ≠ [] := by
      rintro rfl
      cases h
    have hsame : text.takeWhile (· ≠ '\n') ++ text.dropWhile (· ≠ '\n') = text :=
      List.takeWhile_append_dropWhile
    have hstop := stops_dropWhile (· ≠ '\n') text
    rw [splitLines_eq_cons hne] at h ⊢
    rw [List.getElem?_cons_succ] at h
    cases hdrop : text.dropWhile (· ≠ '\n') with
    | nil =>
      rw [hdrop] at h
      cases h
    | cons c below =>
      obtain rfl : c = '\n' := by simpa using hstop c (by rw [hdrop]; rfl)
      rw [hdrop] at h hsame
      obtain ⟨more, hbelow, hmore⟩ := ih h
      refine ⟨more, ?_, hmore⟩
      rw [List.take_succ_cons, unlines_cons, List.append_assoc, List.cons_append, ← hbelow,
        List.tail_cons, hsame]

/-! ## The table of a text -/

namespace LineTable

/-- What a table says of a text. -/
structure Tiles (tabWidth : Nat) (text : List Char) (table : LineTable) : Prop where
  filled : table.lines = [] ↔ text = []
  number : ∀ i line, table.lines[i]? = some line → line.number = i + 1
  first : ∀ line, table.lines[0]? = some line → line.start = 0
  next : ∀ i line below, table.lines[i]? = some line → table.lines[i + 1]? = some below →
    below.start = line.stop + 1
  /-- The last line ends at the end of the text, or in front of the line feed that ends it. -/
  last : ∀ line, table.lines.getLast? = some line →
    text.getLast? = some '\n' ∧ line.stop + 1 = byteSize text ∨
      text.getLast? ≠ some '\n' ∧ line.stop = byteSize text
  slice : ∀ line ∈ table.lines, sliceBytes line.start line.stop text = line.chars ∧ '\n' ∉ line.chars
  parts : ∀ line ∈ table.lines, ∃ blanks spaces remark, line.Parts tabWidth blanks spaces remark

variable {tabWidth : Nat} {text : List Char} {line below : Line} {i j : Nat}

/-- A line of a table is a line of its text, and starts behind the lines above it. -/
theorem exists_of_getElem? (h : (ofText tabWidth text).lines[i]? = some line) :
    line.number = i + 1 ∧ line.indent = indentWidth tabWidth line.chars ∧
      (splitLines text)[i]? = some line.chars ∧
      line.start = byteSize (unlines ((splitLines text).take i)) := by
  rw [← get?_succ] at h
  obtain ⟨i', hi, hchars, hindent, hstart⟩ := exists_of_get?_ofText h
  obtain rfl := Nat.succ.inj hi
  exact ⟨numbered_ofText tabWidth text _ _ h, hindent, hchars, hstart⟩

/-- The end of the last line. -/
theorem stop_of_getLast? (h : (ofText tabWidth text).lines.getLast? = some line) :
    text.getLast? = some '\n' ∧ line.stop + 1 = byteSize text ∨
      text.getLast? ≠ some '\n' ∧ line.stop = byteSize text := by
  rw [List.getLast?_eq_getElem?] at h
  obtain ⟨-, -, hchars, hstart⟩ := exists_of_getElem? h
  obtain ⟨more, htext, hne, hstop, hbelow⟩ := exists_of_getElem?_splitLines hchars
  have hsize : (splitLines text).length = (ofText tabWidth text).lines.length :=
    (size_ofText tabWidth text).symm
  rw [List.drop_eq_nil_of_le (by omega), splitLines_eq_nil_iff] at hbelow
  have hbytes := congrArg byteSize htext
  rw [byteSize_append, byteSize_append, ← hstart] at hbytes
  have hlast : text.getLast? = (line.chars ++ more).getLast? := by
    conv_lhs => rw [htext]
    exact List.getLast?_append_of_ne_nil _ hne
  cases more with
  | nil =>
    refine .inr ⟨?_, by rw [hbytes, Line.stop, byteSize_nil, Nat.add_zero]⟩
    rw [hlast, List.append_nil]
    exact fun hfeed =>
      lineFeed_not_mem_of_mem_splitLines (List.mem_of_getElem? hchars) (List.mem_of_getLast? hfeed)
  | cons c behind =>
    obtain rfl : behind = [] := hbelow
    obtain rfl : c = '\n' := by simpa using hstop c rfl
    refine .inl ⟨by rw [hlast, List.getLast?_append]; rfl, ?_⟩
    rw [hbytes, Line.stop, Nat.add_assoc]
    rfl

/-- The table of a text tiles the text. -/
theorem tiles_ofText (tabWidth : Nat) (text : List Char) :
    (ofText tabWidth text).Tiles tabWidth text where
  filled := by
    rw [← splitLines_eq_nil_iff, ← map_chars_ofText tabWidth, List.map_eq_nil_iff]
  number := fun i line h => (exists_of_getElem? h).1
  first := fun line h => (exists_of_getElem? h).2.2.2
  next := by
    intro i line below hline hbelow
    obtain ⟨-, -, hchars, hstart⟩ := exists_of_getElem? hline
    obtain ⟨-, -, -, hstart'⟩ := exists_of_getElem? hbelow
    rw [hstart', List.take_add_one, hchars, Option.toList_some, unlines, List.flatMap_append,
      byteSize_append, ← unlines, ← hstart, ← unlines, unlines_cons, byteSize_append, Line.stop,
      Nat.add_assoc]
    rfl
  last := fun line h => stop_of_getLast? h
  slice := by
    intro line hmem
    obtain ⟨i, hline⟩ := List.getElem?_of_mem hmem
    obtain ⟨-, -, hchars, hstart⟩ := exists_of_getElem? hline
    obtain ⟨more, htext, -⟩ := exists_of_getElem?_splitLines hchars
    have hslice := sliceBytes_append (unlines ((splitLines text).take i)) line.chars more
    rw [List.append_assoc, ← htext, ← hstart] at hslice
    exact ⟨hslice, lineFeed_not_mem_of_mem_splitLines (List.mem_of_getElem? hchars)⟩
  parts := by
    intro line hmem
    obtain ⟨i, hline⟩ := List.getElem?_of_mem hmem
    exact Line.exists_parts (exists_of_getElem? hline).2.1

/-- The lines of a table do not meet. -/
theorem Tiles.stop_lt {table : LineTable} (h : table.Tiles tabWidth text) (hij : i < j)
    (hline : table.lines[i]? = some line) (hbelow : table.lines[j]? = some below) :
    line.stop < below.start := by
  induction j generalizing below with
  | zero => cases hij
  | succ j ih =>
    obtain ⟨hlt, -⟩ := List.getElem?_eq_some_iff.1 hbelow
    have habove : table.lines[j]? = some table.lines[j] := List.getElem?_eq_getElem (by omega)
    rw [h.next j _ below habove hbelow, Nat.lt_succ_iff]
    rcases Nat.lt_or_eq_of_le (Nat.le_of_lt_succ hij) with hlt | rfl
    · exact Nat.le_of_lt (Nat.lt_of_lt_of_le (ih hlt habove) (Nat.le_add_right _ _))
    · rw [Option.some.inj (hline.symm.trans habove)]

/-- So a place is on one line at most. -/
theorem Tiles.eq_of_mem {table : LineTable} (h : table.Tiles tabWidth text) {place : Nat}
    (hline : line ∈ table.lines) (hbelow : below ∈ table.lines)
    (hplace : line.start ≤ place ∧ place ≤ line.stop)
    (hplace' : below.start ≤ place ∧ place ≤ below.stop) : below = line := by
  obtain ⟨i, hi⟩ := List.getElem?_of_mem hline
  obtain ⟨j, hj⟩ := List.getElem?_of_mem hbelow
  rcases Nat.lt_trichotomy i j with hlt | rfl | hlt
  · have hbetween := h.stop_lt hlt hi hj
    omega
  · exact Option.some.inj (hj.symm.trans hi)
  · have hbetween := h.stop_lt hlt hj hi
    omega

end LineTable

/-! ## The line of a scan -/

/-- In front of the end of the text a scan is on the line whose number it keeps. -/
theorem Scan.Reached.exists_line {tabWidth : Nat} {table : LineTable} {text : List Char} {s : Scan}
    (h : Reached table (ofText text) s) (hrest : s.rest ≠ []) :
    ∃ passed line, text = passed ++ s.rest ∧ s.position.offset = byteSize passed ∧
      (LineTable.ofText tabWidth text).get? s.position.line = some line ∧
      line.start ≤ s.position.offset ∧ s.position.offset ≤ line.stop := by
  obtain ⟨passed, htext, hposition⟩ := h.standsIn
  obtain ⟨line, hline, hchars, hstart⟩ :=
    StandsIn.exists_line_at ⟨passed, htext, hposition⟩ htext hrest tabWidth
  have hoffset : s.position.offset = byteSize passed := by
    rw [hposition, Position.offset_eq]
  refine ⟨passed, line, htext, hoffset, hline, ?_, ?_⟩
  · rw [hoffset, ← hstart]
    exact Nat.le_add_right _ _
  · rw [hoffset, ← hstart, Line.stop, hchars, byteSize_append]
    omega

end BlockLexer
