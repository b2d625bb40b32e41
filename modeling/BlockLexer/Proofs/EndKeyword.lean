import BlockLexer.Proofs.LineLayout

/-!
# The word `end` in the line table and in the scan

A line is asked whether it begins with the word `end` before it is read, and the rule that ends a
block finds the word when it is read.  The line stops the word at a character of no name, and the
rule at a character of no word.  Within ASCII the two are the same.

* `Line.isEnd_iff_exists_word` and `Rule.exists_blockEnd_iff` say what either of them looks for.
* `IsWideEnd` is the word in front of a character of words that is beyond ASCII, and
  `Line.isEnd_iff_blockEnd`: this is where the line has it, and the rule has not.
-/

namespace BlockLexer

open Text Pattern Lexeme

variable {cs word rest more : List Char}

/-! ## What the line finds -/

/-- Where the word stands in front of a character of no name, the line begins with it. -/
theorem Line.isEnd_of_word {line : Line} (hmore : Stops continuesName more)
    (hcut : line.chars.dropWhile Text.isBlank ++ more = word ++ rest)
    (hword : equalsCaseless word endName = true) (hrest : Stops continuesName rest) :
    line.isEnd = true := by
  have hlength := length_of_endName hword
  have hchars := continuesName_of_isIdentifier (isIdentifier_of_endName hword)
  -- The word does not go on behind the line.
  have hle : 3 ≤ (line.chars.dropWhile Text.isBlank).length := by
    refine length_le_of_equalsCaseless isAlpha_of_mem_end hmore ?_
    rw [hcut, show ['e', 'n', 'd'].length = word.length from hlength.symm, List.take_left]
    exact hword
  obtain ⟨behind, hbehind⟩ : word <+: line.chars.dropWhile Text.isBlank :=
    List.prefix_of_prefix_length_le (hcut ▸ List.prefix_append word rest)
      (List.prefix_append _ more) (hlength ▸ hle)
  rw [← hbehind, List.append_assoc, List.append_cancel_left_eq] at hcut
  have hsame : line.content = word ++ trimEnd (behind.takeWhile (· ≠ ';')) := by
    rw [content, ← hbehind, List.takeWhile_append_of_pos
      fun c hc => decide_eq_true (ne_of_class (hchars c hc) rfl),
      trimEnd_append fun c hc => not_isSpace_of_continuesName (hchars c hc)]
  have hnext : Stops continuesName (trimEnd (behind.takeWhile (· ≠ ';'))) := by
    obtain ⟨spaces, htrim, -⟩ := exists_spaces (behind.takeWhile (· ≠ ';'))
    refine hrest.of_prefix ?_
    rw [← hcut]
    exact ((List.prefix_append _ spaces).trans (htrim ▸ List.takeWhile_prefix _)).trans
      (List.prefix_append _ more)
  rw [isEnd, hsame, ← hlength, List.take_left, List.drop_left]
  refine Bool.and_eq_true_iff.2 ⟨hword, ?_⟩
  cases htrim : trimEnd (behind.takeWhile (· ≠ ';')) with
  | nil => rfl
  | cons c tail =>
    rw [htrim] at hnext
    simpa using hnext c rfl

theorem Line.isEnd_iff_exists_word {line : Line} (hmore : Stops continuesName more) :
    line.isEnd = true ↔
      ∃ word rest, line.chars.dropWhile Text.isBlank ++ more = word ++ rest ∧
        equalsCaseless word endName = true ∧ Stops continuesName rest :=
  ⟨fun h => exists_word_of_isEnd h hmore,
    fun ⟨_, _, hcut, hword, hrest⟩ => isEnd_of_word hmore hcut hword hrest⟩

/-! ## What the rule finds -/

theorem Lexeme.endWord_eq_some_iff :
    endWord cs = some (word, rest) ↔
      cs = word ++ rest ∧ equalsCaseless word endName = true ∧ Stops isWord rest := by
  constructor
  · intro h
    obtain ⟨x, y, between, hword, hbefore, rfl⟩ := exists_of_seq_eq_some h
    obtain ⟨hsame, hcut⟩ := Option.ite_none_right_eq_some.1 hword
    obtain ⟨rfl, rfl⟩ := Prod.mk.inj (Option.some.inj hcut)
    have hstop : y = [] ∧ rest = cs.drop 3 ∧ Stops isWord (cs.drop 3) := by
      cases hdrop : cs.drop 3 with
      | nil =>
        rw [show ['e', 'n', 'd'].length = 3 from rfl, hdrop] at hbefore
        obtain ⟨rfl, rfl⟩ := Prod.mk.inj (Option.some.inj hbefore)
        exact ⟨rfl, rfl, stops_nil⟩
      | cons c more =>
        rw [show ['e', 'n', 'd'].length = 3 from rfl, hdrop] at hbefore
        obtain ⟨hc, hbefore⟩ := Option.ite_none_left_eq_some.1 hbefore
        obtain ⟨rfl, rfl⟩ := Prod.mk.inj (Option.some.inj hbefore)
        exact ⟨rfl, rfl, stops_cons (by simpa using hc)⟩
    obtain ⟨rfl, rfl, hrest⟩ := hstop
    rw [List.append_nil]
    exact ⟨(List.take_append_drop 3 cs).symm, hsame, hrest⟩
  · rintro ⟨rfl, hword, hrest⟩
    exact endWord_of_endName hword hrest

/-- The rule that ends a block takes the word in front of a character of no word. -/
theorem Rule.exists_blockEnd_iff :
    (∃ m, Rule.match? .blockEnd cs = some m) ↔
      ∃ word rest, cs = word ++ rest ∧ equalsCaseless word endName = true ∧ Stops isWord rest := by
  constructor
  · rintro ⟨m, hmatch⟩
    cases hend : endWord cs with
    | none => simp [match?, Match.ofGroup, hend] at hmatch
    | some cut => exact ⟨cut.1, cut.2, endWord_eq_some_iff.1 hend⟩
  · rintro ⟨word, rest, rfl, hword, hrest⟩
    obtain ⟨m, hselect⟩ := Mode.select_of_endName hword hrest
    exact ⟨m, Mode.match?_of_select hselect⟩

/-! ## The two together -/

/-- The word `end` in any case, in front of a character of words that is beyond ASCII. -/
def IsWideEnd (cs : List Char) : Prop :=
  ∃ word c more, cs = word ++ c :: more ∧ equalsCaseless word endName = true ∧
    isWord c = true ∧ 127 < c.toNat

/-- A character of no name is one of no word, unless it is beyond ASCII. -/
theorem stops_continuesName_iff :
    Stops continuesName cs ↔
      Stops isWord cs ∨ ∃ c more, cs = c :: more ∧ isWord c = true ∧ 127 < c.toNat := by
  constructor
  · intro h
    cases cs with
    | nil => exact .inl stops_nil
    | cons c more =>
      by_cases hc : isWord c = true
      · rcases continuesName_or_lt_of_isWord hc with hname | hwide
        · cases hname.symm.trans (h c rfl)
        · exact .inr ⟨c, more, rfl, hc, hwide⟩
      · exact .inl (stops_cons (by simpa using hc))
  · rintro (h | ⟨c, more, rfl, -, hwide⟩)
    · intro c hc
      rw [← Bool.not_eq_true]
      intro hname
      cases (isWord_of_continuesName hname).symm.trans (h c hc)
    · refine stops_cons ?_
      rw [← Bool.not_eq_true]
      intro hname
      simp only [continuesName, Bool.or_eq_true, decide_eq_true_eq] at hname
      rcases hname with rfl | halpha
      · exact absurd hwide (by decide)
      · exact absurd (toNat_lt_of_isAlphanum halpha) (by omega)

/-- The word is found in one way only. -/
theorem not_blockEnd_and_isWideEnd :
    ¬ ((∃ m, Rule.match? .blockEnd cs = some m) ∧ IsWideEnd cs) := by
  rintro ⟨hmatch, word', c, more, hwide, hword', hc, -⟩
  obtain ⟨word, rest, hcut, hword, hrest⟩ := Rule.exists_blockEnd_iff.1 hmatch
  obtain ⟨-, rfl⟩ := List.append_inj (hcut.symm.trans hwide)
    ((length_of_endName hword).trans (length_of_endName hword').symm)
  cases hc.symm.trans (hrest c rfl)

namespace Line

/-- What a text has from the first character of a line on that is no blank. -/
def restIn (text : List Char) (line : Line) : List Char :=
  dropBytes (line.start + byteSize (line.chars.takeWhile Text.isBlank)) text

variable {tabWidth : Nat} {text : List Char} {line : Line}

/-- It is what stands behind the blanks, with the lines below. -/
theorem exists_restIn (h : line ∈ (LineTable.ofText tabWidth text).lines) :
    ∃ more, line.restIn text = line.chars.dropWhile Text.isBlank ++ more ∧
      Stops (· ≠ '\n') more := by
  obtain ⟨i, hline⟩ := List.getElem?_of_mem h
  obtain ⟨-, -, hchars, hstart⟩ := LineTable.exists_of_getElem? hline
  obtain ⟨more, htext, -, hstop, -⟩ := exists_of_getElem?_splitLines hchars
  refine ⟨more, ?_, hstop⟩
  generalize unlines ((splitLines text).take i) = above at htext hstart
  have hcut : text = above ++ line.chars.takeWhile Text.isBlank ++
      (line.chars.dropWhile Text.isBlank ++ more) := by
    rw [List.append_assoc, ← List.append_assoc (line.chars.takeWhile Text.isBlank),
      List.takeWhile_append_dropWhile, ← htext]
  rw [restIn, hstart, ← byteSize_append, hcut, dropBytes_byteSize_append]

/-- A line of a text begins with the word `end` if the rule that ends a block matches at its first
character that is no blank, or if the word goes on there with a character of words beyond ASCII.
There the rule does not match.  Where it matches, a scan in a block selects it. -/
theorem isEnd_iff_blockEnd (h : line ∈ (LineTable.ofText tabWidth text).lines) :
    (line.isEnd = true ↔
        (∃ m, Rule.match? .blockEnd (line.restIn text) = some m) ∨ IsWideEnd (line.restIn text)) ∧
      ¬ ((∃ m, Rule.match? .blockEnd (line.restIn text) = some m) ∧
        IsWideEnd (line.restIn text)) ∧
      ∀ m, Rule.match? .blockEnd (line.restIn text) = some m →
        Mode.block.select (line.restIn text) = some (.blockEnd, m) := by
  obtain ⟨more, hrest, hmore⟩ := exists_restIn h
  have hstop : Stops continuesName more := by
    intro c hc
    obtain rfl : c = '\n' := by simpa using hmore c hc
    rfl
  refine ⟨?_, not_blockEnd_and_isWideEnd, fun m hmatch => ?_⟩
  · rw [isEnd_iff_exists_word hstop, ← hrest, Rule.exists_blockEnd_iff]
    constructor
    · rintro ⟨word, rest, hcut, hword, hnext⟩
      rcases stops_continuesName_iff.1 hnext with hnext | ⟨c, tail, rfl, hc, hwide⟩
      · exact .inl ⟨word, rest, hcut, hword, hnext⟩
      · exact .inr ⟨word, c, tail, hcut, hword, hc, hwide⟩
    · rintro (⟨word, rest, hcut, hword, hnext⟩ | ⟨word, c, tail, hcut, hword, hc, hwide⟩)
      · exact ⟨word, rest, hcut, hword, stops_continuesName_iff.2 (.inl hnext)⟩
      · exact ⟨word, _, hcut, hword, stops_continuesName_iff.2 (.inr ⟨c, tail, rfl, hc, hwide⟩)⟩
  · obtain ⟨word, rest, hcut, hword, hnext⟩ := Rule.exists_blockEnd_iff.1 ⟨m, hmatch⟩
    obtain ⟨m', hselect⟩ := Mode.select_of_endName hword hnext
    rw [← hcut] at hselect
    rw [hselect, Option.some.inj ((Mode.match?_of_select hselect).symm.trans hmatch)]

/-- The word behind blanks and in front of a comment, in mixed case. -/
theorem isEnd_of_mixed_case :
    ∃ line ∈ (LineTable.ofText 4 "A\n  End;x\n".toList).lines, line.chars = "  End;x".toList ∧
      line.isEnd = true ∧
      ∃ m, Mode.block.select (line.restIn "A\n  End;x\n".toList) = some (.blockEnd, m) := by
  let line : Line := { number := 2, start := 2, indent := 2, chars := "  End;x".toList }
  have hmem : line ∈ (LineTable.ofText 4 "A\n  End;x\n".toList).lines := by decide +kernel
  have hmatch : (Rule.match? .blockEnd (line.restIn "A\n  End;x\n".toList)).isSome = true := by
    decide +kernel
  obtain ⟨m, hmatch⟩ := Option.isSome_iff_exists.1 hmatch
  obtain ⟨hend, -, hselect⟩ := isEnd_iff_blockEnd hmem
  exact ⟨line, hmem, rfl, hend.2 (.inl ⟨m, hmatch⟩), m, hselect m hmatch⟩

/-- In front of an accented letter the line has the word, and the rule does not match. -/
theorem isEnd_without_blockEnd :
    ∃ source line, (Source.ofText ⟨[], []⟩ {} "A\nendé\n".toList textOrigin).outcome = .ok source ∧
      line ∈ source.table.lines ∧ line.isEnd = true ∧
      Rule.match? .blockEnd (line.restIn source.text) = none := by
  have hstate : (Source.ofText ⟨[], []⟩ {} "A\nendé\n".toList textOrigin).outcome.map
      (fun source => (source.table.lines[1]?).map fun line =>
        (line.isEnd, (Rule.match? .blockEnd (line.restIn source.text)).isNone)) =
          .ok (some (true, true)) := by
    decide +kernel
  obtain ⟨source, hsource, hstate⟩ := exists_of_map_eq_ok hstate
  obtain ⟨line, hline, hpair⟩ := Option.map_eq_some_iff.1 hstate
  obtain ⟨hend, hnone⟩ := Prod.mk.inj hpair
  exact ⟨source, line, hsource, List.mem_of_getElem? hline, hend, Option.isNone_iff_eq_none.1 hnone⟩

end Line

end BlockLexer
