import BlockLexer.Text.Newlines

/-!
# Reading the lines of a text

Line ends are made normal by replacements in the whole text, one after the other.  This
module says that it comes to what a reader does that goes through the text once.

* `toLineFeeds` is the text behind the replacements, before its last line is closed.
* `normalizeNewlines_eq_self_iff` says which texts are normal.
* `LineEnd` is what ends a line, and `LineReader` reads lines one character after the other,
  without a look at the next one.  `readLines_append` says that it takes each line end as a whole.
* `induction_on_lines` is the induction on the lines of a text.  By it
  `normalizeNewlines_eq_unlines_readLines` compares the replacements and the reader.
* `normalizeNewlines_writes_lines` says what a normal text is, whatever ends the lines.
-/

namespace BlockLexer.Text

/-! ## Replacements -/

theorem joinCrLf_cons_of_ne {c : Char} (hc : c ≠ '\r') (cs : List Char) :
    joinCrLf (c :: cs) = c :: joinCrLf cs := by
  conv => lhs; unfold joinCrLf
  split
  · next hsame => exact absurd (List.cons.inj hsame).1 hc
  · next hsame =>
    obtain ⟨rfl, rfl⟩ := List.cons.inj hsame
    rfl
  · next hnil => cases hnil

/-- Without a CR there is no CR LF pair. -/
theorem joinCrLf_of_not_mem {cs : List Char} (h : '\r' ∉ cs) : joinCrLf cs = cs := by
  induction cs with
  | nil => rfl
  | cons c cs ih =>
    obtain ⟨hc, hcs⟩ := List.ne_and_not_mem_of_not_mem_cons h
    rw [joinCrLf_cons_of_ne hc.symm, ih hcs]

/-- No pair is taken apart in front of a character other than a line feed. -/
theorem joinCrLf_append_cons {c : Char} (hc : c ≠ '\n') (cs more : List Char) :
    joinCrLf (cs ++ c :: more) = joinCrLf cs ++ joinCrLf (c :: more) := by
  fun_induction joinCrLf cs with
  | case1 cs ih => rw [List.cons_append, List.cons_append, joinCrLf, ih, List.cons_append]
  | case2 d cs hpair ih =>
    rw [List.cons_append, List.cons_append, ← ih, joinCrLf]
    rintro more' rfl hfeed
    cases cs with
    | nil => exact hc (List.cons.inj hfeed).1
    | cons e cs =>
      obtain ⟨rfl, -⟩ := List.cons.inj hfeed
      exact hpair cs rfl rfl
  | case3 => rfl

/-- A text with a line feed for each of its line ends. -/
def toLineFeeds (cs : List Char) : List Char :=
  (joinCrLf cs).map fun c => if c = '\r' then '\n' else c

theorem normalizeNewlines_eq_unlines (cs : List Char) :
    normalizeNewlines cs = unlines (splitLines (toLineFeeds cs)) :=
  (unlines_splitLines (toLineFeeds cs)).symm

theorem toLineFeeds_append {cs : List Char} (h : '\r' ∉ cs) (more : List Char) :
    toLineFeeds (cs ++ more) = cs ++ toLineFeeds more := by
  induction cs with
  | nil => rfl
  | cons c cs ih =>
    obtain ⟨hc, hcs⟩ := List.ne_and_not_mem_of_not_mem_cons h
    have hmore := ih hcs
    unfold toLineFeeds at hmore ⊢
    rw [List.cons_append, joinCrLf_cons_of_ne hc.symm, List.map_cons, hmore, if_neg hc.symm,
      List.cons_append]

theorem toLineFeeds_append_cons {c : Char} (hc : c ≠ '\n') (cs more : List Char) :
    toLineFeeds (cs ++ c :: more) = toLineFeeds cs ++ toLineFeeds (c :: more) := by
  unfold toLineFeeds
  rw [joinCrLf_append_cons hc, List.map_append]

/-! ## Normal texts -/

/-- Without a CR only the last line is closed. -/
theorem normalizeNewlines_of_not_mem {cs : List Char} (h : '\r' ∉ cs) :
    normalizeNewlines cs = closeLastLine cs := by
  have hsame : ∀ c ∈ cs, (if c = '\r' then '\n' else c) = c := by
    intro c hc
    rw [if_neg (ne_of_mem_of_not_mem hc h)]
  rw [normalizeNewlines, joinCrLf_of_not_mem h, List.map_congr_left hsame, List.map_id']

/-- A last line that has no line feed yet is closed. -/
theorem closeLastLine_append {line : List Char} (cs : List Char) (hne : line ≠ [])
    (hfeed : '\n' ∉ line) : closeLastLine (cs ++ line) = cs ++ line ++ ['\n'] := by
  obtain ⟨init, last, rfl⟩ := (List.eq_nil_or_concat line).resolve_left hne
  rw [List.concat_eq_append] at hfeed ⊢
  unfold closeLastLine
  rw [← List.append_assoc, List.getLast?_concat]
  exact if_neg (ne_of_mem_of_not_mem (List.mem_append_right init List.mem_cons_self) hfeed)

/-- A text that is empty or ends with a line feed is made up of its lines. -/
theorem unlines_splitLines_of_closed {cs : List Char} (h : cs = [] ∨ cs.getLast? = some '\n') :
    unlines (splitLines cs) = cs := by
  rw [unlines_splitLines]
  rcases h with rfl | hlast
  · rfl
  · unfold closeLastLine
    rw [hlast]
    rfl

theorem carriageReturn_not_mem_unlines {lines : List (List Char)}
    (h : ∀ line ∈ lines, '\r' ∉ line) : '\r' ∉ unlines lines := by
  intro hmem
  obtain ⟨line, hline, hr⟩ := List.mem_flatMap.1 hmem
  rcases List.mem_append.1 hr with hr | hr
  · exact h line hline hr
  · exact absurd hr (by decide)

/-- Lines without CR, each closed by a line feed, are normal. -/
theorem normalizeNewlines_unlines {lines : List (List Char)} (h : ∀ line ∈ lines, '\r' ∉ line)
    (h' : ∀ line ∈ lines, '\n' ∉ line) : normalizeNewlines (unlines lines) = unlines lines := by
  rw [normalizeNewlines_of_not_mem (carriageReturn_not_mem_unlines h), ← unlines_splitLines,
    splitLines_unlines lines h']

/-- A normal text holds no CR. -/
theorem carriageReturn_not_mem_normalizeNewlines (cs : List Char) :
    '\r' ∉ normalizeNewlines cs := by
  have hmap : '\r' ∉ (joinCrLf cs).map fun c => if c = '\r' then '\n' else c := by
    rw [List.mem_map]
    rintro ⟨c, -, hc⟩
    split at hc
    · cases hc
    · next hne => exact hne hc
  unfold normalizeNewlines closeLastLine
  split
  · exact List.not_mem_nil
  · split
    · exact hmap
    · rw [List.mem_append, not_or]
      exact ⟨hmap, by decide⟩

/-- What is in a line of a text is in the text. -/
theorem mem_of_mem_splitLines {cs line : List Char} {c : Char} (h : line ∈ splitLines cs)
    (hc : c ∈ line) : c ∈ cs := by
  have hunlines : c ∈ unlines (splitLines cs) :=
    List.mem_flatMap.2 ⟨line, h, List.mem_append_left _ hc⟩
  have hne : c ≠ '\n' := by
    rintro rfl
    exact lineFeed_not_mem_of_mem_splitLines h hc
  rw [unlines_splitLines, closeLastLine] at hunlines
  split at hunlines
  · cases hunlines
  · split at hunlines
    · exact hunlines
    · exact (List.mem_append.1 hunlines).resolve_right fun hlast => hne (List.mem_singleton.1 hlast)

/-- Lines that are written one after the other make up nothing, or end with a line feed. -/
theorem getLast?_unlines (lines : List (List Char)) :
    unlines lines = [] ∨ (unlines lines).getLast? = some '\n' := by
  induction lines with
  | nil => exact .inl rfl
  | cons line lines ih =>
    refine .inr ?_
    rw [unlines_cons]
    rcases ih with hnil | hlast
    · rw [hnil, List.getLast?_append]
      rfl
    · rw [List.getLast?_append, List.getLast?_cons, hlast]
      rfl

/-- Where line ends are normal, the last line is closed. -/
theorem closed_normalizeNewlines (cs : List Char) :
    normalizeNewlines cs = [] ∨ (normalizeNewlines cs).getLast? = some '\n' := by
  unfold normalizeNewlines
  rw [← unlines_splitLines]
  exact getLast?_unlines _

/-- A normal text has no CR, and its last line is closed. -/
theorem normalizeNewlines_eq_self_iff {cs : List Char} :
    normalizeNewlines cs = cs ↔ '\r' ∉ cs ∧ (cs = [] ∨ cs.getLast? = some '\n') := by
  constructor
  · intro hnormal
    have hfree := carriageReturn_not_mem_normalizeNewlines cs
    have hclosed := closed_normalizeNewlines cs
    rw [hnormal] at hfree hclosed
    exact ⟨hfree, hclosed⟩
  · rintro ⟨hfree, hclosed⟩
    have hlines : ∀ line ∈ splitLines cs, '\r' ∉ line :=
      fun line hline hmem => hfree (mem_of_mem_splitLines hline hmem)
    have hnormal := normalizeNewlines_unlines hlines
      fun line hline => lineFeed_not_mem_of_mem_splitLines hline
    rwa [unlines_splitLines_of_closed hclosed] at hnormal

/-- Normal texts that are written one below the other are normal. -/
theorem normalizeNewlines_append {cs ds : List Char} (hcs : normalizeNewlines cs = cs)
    (hds : normalizeNewlines ds = ds) : normalizeNewlines (cs ++ ds) = cs ++ ds := by
  rw [normalizeNewlines_eq_self_iff] at hcs hds ⊢
  refine ⟨fun hmem => (List.mem_append.1 hmem).elim hcs.1 hds.1, ?_⟩
  rcases hds.2 with rfl | hlast
  · rw [List.append_nil]
    exact hcs.2
  · right
    rw [List.getLast?_append, hlast]
    rfl

/-! ## Line ends -/

/-- What ends a line of a text. -/
inductive LineEnd where
  | lineFeed
  | carriageReturn
  | pair

namespace LineEnd

/-- The characters of a line end. -/
def chars : LineEnd → List Char
  | lineFeed => ['\n']
  | carriageReturn => ['\r']
  | pair => ['\r', '\n']

/-- A line end is whole in front of a text.  A CR is not if a line feed follows it. -/
def WholeBefore : LineEnd → List Char → Prop
  | carriageReturn, rest => rest.head? ≠ some '\n'
  | _, _ => True

/-- A text with a line end in the place of each of its line feeds. -/
def respell (lineEnd : LineEnd) (text : List Char) : List Char :=
  text.flatMap fun c => if c = '\n' then lineEnd.chars else [c]

theorem respell_cons (lineEnd : LineEnd) (c : Char) (cs : List Char) :
    lineEnd.respell (c :: cs) =
      (if c = '\n' then lineEnd.chars else [c]) ++ lineEnd.respell cs :=
  List.flatMap_cons

theorem respell_append (lineEnd : LineEnd) (cs ds : List Char) :
    lineEnd.respell (cs ++ ds) = lineEnd.respell cs ++ lineEnd.respell ds :=
  List.flatMap_append

/-- Where there is no line feed, nothing changes. -/
theorem respell_of_not_mem (lineEnd : LineEnd) {cs : List Char} (h : '\n' ∉ cs) :
    lineEnd.respell cs = cs := by
  induction cs with
  | nil => rfl
  | cons c cs ih =>
    obtain ⟨hc, hcs⟩ := List.ne_and_not_mem_of_not_mem_cons h
    rw [respell_cons, if_neg hc.symm, ih hcs, List.singleton_append]

theorem respell_append_lineFeed (lineEnd : LineEnd) {line : List Char} (h : '\n' ∉ line)
    (rest : List Char) :
    lineEnd.respell (line ++ '\n' :: rest) = line ++ (lineEnd.chars ++ lineEnd.respell rest) := by
  rw [respell_append, lineEnd.respell_of_not_mem h, respell_cons, if_pos rfl]

/-- A line end is whole in front of a text that is written with it. -/
theorem wholeBefore_respell (lineEnd : LineEnd) (text : List Char) :
    lineEnd.WholeBefore (lineEnd.respell text) := by
  cases lineEnd with
  | lineFeed => trivial
  | pair => trivial
  | carriageReturn =>
    intro hhead
    obtain ⟨c, -, hfeed⟩ := List.mem_flatMap.1 (List.mem_of_mem_head? hhead)
    split at hfeed
    · exact absurd hfeed (by decide)
    · next hc => exact hc (List.mem_singleton.1 hfeed).symm

end LineEnd

/-- A text without line ends. -/
structure IsUnbroken (line : List Char) : Prop where
  lineFeed : '\n' ∉ line
  carriageReturn : '\r' ∉ line

/-- A text without line ends, or its first line and the line end behind it. -/
theorem isUnbroken_or_exists (text : List Char) :
    IsUnbroken text ∨ ∃ line lineEnd rest, text = line ++ (LineEnd.chars lineEnd ++ rest) ∧
      IsUnbroken line ∧ lineEnd.WholeBefore rest := by
  have hnil : IsUnbroken [] := ⟨List.not_mem_nil, List.not_mem_nil⟩
  induction text with
  | nil => exact .inl hnil
  | cons c cs ih =>
    by_cases hfeed : c = '\n'
    · subst hfeed
      exact .inr ⟨[], .lineFeed, cs, rfl, hnil, trivial⟩
    by_cases hreturn : c = '\r'
    · subst hreturn
      by_cases hhead : cs.head? = some '\n'
      · obtain ⟨rest, rfl⟩ := List.head?_eq_some_iff.1 hhead
        exact .inr ⟨[], .pair, rest, rfl, hnil, trivial⟩
      · exact .inr ⟨[], .carriageReturn, cs, rfl, hnil, hhead⟩
    have hcons : ∀ line, IsUnbroken line → IsUnbroken (c :: line) := fun line hline =>
      ⟨List.not_mem_cons_of_ne_of_not_mem (Ne.symm hfeed) hline.lineFeed,
        List.not_mem_cons_of_ne_of_not_mem (Ne.symm hreturn) hline.carriageReturn⟩
    rcases ih with hcs | ⟨line, lineEnd, rest, rfl, hline, hwhole⟩
    · exact .inl (hcons cs hcs)
    · exact .inr ⟨c :: line, lineEnd, rest, rfl, hcons line hline, hwhole⟩

/-- Induction on the lines of a text. -/
theorem induction_on_lines {motive : List Char → Prop}
    (unbroken : ∀ line, IsUnbroken line → motive line)
    (ended : ∀ line (lineEnd : LineEnd) rest, IsUnbroken line → lineEnd.WholeBefore rest →
      motive rest → motive (line ++ (lineEnd.chars ++ rest)))
    (text : List Char) : motive text := by
  induction hlength : text.length using Nat.strongRecOn generalizing text with
  | ind n ih =>
    rcases isUnbroken_or_exists text with hline | ⟨line, lineEnd, rest, rfl, hline, hwhole⟩
    · exact unbroken text hline
    · -- A line end is not empty, so less is left behind it.
      have hlt : rest.length < n := by
        rw [← hlength, List.length_append, List.length_append]
        cases lineEnd <;> simp only [LineEnd.chars, List.length_cons, List.length_nil] <;> omega
      exact ended line lineEnd rest hline hwhole (ih rest.length hlt rest rfl)

/-! ## A reader of lines -/

/-- A reader of lines, behind the characters that it has read. -/
structure LineReader where
  /-- The lines that have ended. -/
  ended : List (List Char) := []
  /-- What has been read of the line that has not. -/
  line : List Char := []
  /-- Whether the last character was a CR, so that a line feed belongs to its line end. -/
  behindReturn : Bool := false

namespace LineReader

/-- One character is read. -/
def read (reader : LineReader) (c : Char) : LineReader :=
  if c = '\r' then { ended := reader.ended ++ [reader.line], behindReturn := true }
  else if c = '\n' then
    if reader.behindReturn then { reader with behindReturn := false }
    else { ended := reader.ended ++ [reader.line] }
  else { reader with line := reader.line ++ [c], behindReturn := false }

/-- The lines where the text ends.  What stands behind the last line end is a line if it is
not empty. -/
def lines (reader : LineReader) : List (List Char) :=
  if reader.line.isEmpty then reader.ended else reader.ended ++ [reader.line]

/-- A reader that has come to its text with some lines behind it. -/
def below (above : List (List Char)) (reader : LineReader) : LineReader :=
  { reader with ended := above ++ reader.ended }

theorem read_below (above : List (List Char)) (reader : LineReader) (c : Char) :
    (reader.below above).read c = (reader.read c).below above := by
  by_cases hreturn : c = '\r'
  · simp [read, below, hreturn]
  by_cases hfeed : c = '\n'
  · cases hbehind : reader.behindReturn <;> simp [read, below, hfeed, hbehind]
  · simp [read, below, hreturn, hfeed]

theorem lines_below (above : List (List Char)) (reader : LineReader) :
    (reader.below above).lines = above ++ reader.lines := by
  cases hline : reader.line <;> simp [lines, below, hline]

/-- What has ended stays as it is. -/
theorem lines_foldl_below (above : List (List Char)) (reader : LineReader) (cs : List Char) :
    (cs.foldl read (reader.below above)).lines = above ++ (cs.foldl read reader).lines := by
  rw [List.foldl_hom (below above) (read_below above), lines_below]

/-- Characters that end no line are taken up. -/
theorem foldl_read_of_isUnbroken {cs : List Char} (h : IsUnbroken cs) (line : List Char) :
    cs.foldl read { line } = { line := line ++ cs } := by
  induction cs generalizing line with
  | nil => rw [List.append_nil, List.foldl_nil]
  | cons c cs ih =>
    obtain ⟨hfeed, hfeeds⟩ := List.ne_and_not_mem_of_not_mem_cons h.lineFeed
    obtain ⟨hreturn, hreturns⟩ := List.ne_and_not_mem_of_not_mem_cons h.carriageReturn
    have hread : read { line } c = { line := line ++ [c] } := by
      rw [read, if_neg hreturn.symm, if_neg hfeed.symm]
    rw [List.foldl_cons, hread, ih ⟨hfeeds, hreturns⟩, List.append_assoc, List.singleton_append]

/-- Behind a line end the reader starts anew. -/
theorem lines_behind_lineEnd {lineEnd : LineEnd} {rest : List Char}
    (h : lineEnd.WholeBefore rest) (line : List Char) :
    ((lineEnd.chars ++ rest).foldl read { line }).lines = line :: (rest.foldl read {}).lines := by
  have hstart := lines_foldl_below [line] {} rest
  cases lineEnd with
  | lineFeed => exact hstart
  | pair => exact hstart
  | carriageReturn =>
    cases rest with
    | nil => rfl
    | cons c rest =>
      have hc : c ≠ '\n' := fun hfeed => h (congrArg some hfeed)
      -- The CR makes a difference in front of a line feed only.
      have hread : read { ended := [line], behindReturn := true } c = read { ended := [line] } c := by
        unfold read
        rw [if_neg hc, if_neg hc]
      exact (congrArg (fun reader => (rest.foldl read reader).lines) hread).trans hstart

end LineReader

/-- The lines of a text, read from left to right. -/
def readLines (text : List Char) : List (List Char) :=
  (text.foldl LineReader.read {}).lines

/-- A text without line ends is one line, unless it is empty. -/
theorem readLines_of_isUnbroken {line : List Char} (h : IsUnbroken line) :
    readLines line = if line.isEmpty then [] else [line] := by
  rw [readLines, LineReader.foldl_read_of_isUnbroken h]
  rfl

/-- Each line end ends one line. -/
theorem readLines_append {line rest : List Char} {lineEnd : LineEnd} (hline : IsUnbroken line)
    (hwhole : lineEnd.WholeBefore rest) :
    readLines (line ++ (lineEnd.chars ++ rest)) = line :: readLines rest := by
  rw [readLines, List.foldl_append, LineReader.foldl_read_of_isUnbroken hline]
  exact LineReader.lines_behind_lineEnd hwhole line

example : readLines ['\r', '\r', '\n', 'a', '\n', '\r', 'b'] = [[], [], ['a'], [], ['b']] := by
  decide

/-- No line end is in a line. -/
theorem isUnbroken_of_mem_readLines {text line : List Char} (h : line ∈ readLines text) :
    IsUnbroken line := by
  induction text using induction_on_lines with
  | unbroken text htext =>
    rw [readLines_of_isUnbroken htext] at h
    split at h
    · cases h
    · rwa [List.mem_singleton.1 h]
  | ended first lineEnd rest hfirst hwhole ih =>
    rw [readLines_append hfirst hwhole] at h
    rcases List.mem_cons.1 h with rfl | hrest
    · exact hfirst
    · exact ih hrest

/-! ## Normal texts and their lines -/

/-- Each line end becomes one line feed. -/
theorem normalizeNewlines_append_lineEnd {line rest : List Char} {lineEnd : LineEnd}
    (hline : IsUnbroken line) (hwhole : lineEnd.WholeBefore rest) :
    normalizeNewlines (line ++ (lineEnd.chars ++ rest)) = line ++ '\n' :: normalizeNewlines rest := by
  have hfeed : toLineFeeds (lineEnd.chars ++ rest) = '\n' :: toLineFeeds rest := by
    cases lineEnd with
    | lineFeed => rfl
    | pair => rfl
    | carriageReturn =>
      cases rest with
      | nil => rfl
      | cons c rest =>
        have hc : c ≠ '\n' := fun hfeed => hwhole (congrArg some hfeed)
        exact toLineFeeds_append_cons hc ['\r'] rest
  rw [normalizeNewlines_eq_unlines, toLineFeeds_append hline.carriageReturn, hfeed,
    splitLines_append_lineFeed line _ hline.lineFeed, unlines_cons, ← normalizeNewlines_eq_unlines]

/-- The two replacements do in two passes what the reader does in one. -/
theorem normalizeNewlines_eq_unlines_readLines (text : List Char) :
    normalizeNewlines text = unlines (readLines text) := by
  induction text using induction_on_lines with
  | unbroken line hline =>
    rw [readLines_of_isUnbroken hline, normalizeNewlines_of_not_mem hline.carriageReturn]
    cases line with
    | nil => rfl
    | cons c cs =>
      have hclose := closeLastLine_append [] (List.cons_ne_nil c cs) hline.lineFeed
      exact hclose.trans (unlines_cons (c :: cs) []).symm
  | ended line lineEnd rest hline hwhole ih =>
    rw [normalizeNewlines_append_lineEnd hline hwhole, readLines_append hline hwhole, unlines_cons, ih]

/-- The lines are those of the text whose line ends are normal. -/
theorem splitLines_normalizeNewlines_eq (text : List Char) :
    splitLines (normalizeNewlines text) = readLines text := by
  rw [normalizeNewlines_eq_unlines_readLines]
  exact splitLines_unlines _ fun line hline => (isUnbroken_of_mem_readLines hline).lineFeed

/-- The lines of a text without CR are the same with any line end. -/
theorem readLines_respell (lineEnd : LineEnd) {text : List Char} (h : '\r' ∉ text) :
    readLines (lineEnd.respell text) = readLines text := by
  induction text using induction_on_lines with
  | unbroken line hline => rw [lineEnd.respell_of_not_mem hline.lineFeed]
  | ended line between rest hline hwhole ih =>
    -- Where there is no CR, the line ends with a line feed.
    cases between with
    | lineFeed =>
      have hrest : '\r' ∉ rest := fun hmem => h (by simp [hmem])
      calc readLines (lineEnd.respell (line ++ '\n' :: rest))
        _ = readLines (line ++ (lineEnd.chars ++ lineEnd.respell rest)) := by
          rw [lineEnd.respell_append_lineFeed hline.lineFeed]
        _ = line :: readLines (lineEnd.respell rest) :=
          readLines_append hline (lineEnd.wholeBefore_respell rest)
        _ = line :: readLines rest := by rw [ih hrest]
        _ = readLines (line ++ '\n' :: rest) := (readLines_append hline hwhole).symm
    | carriageReturn => exact absurd (by simp [LineEnd.chars]) h
    | pair => exact absurd (by simp [LineEnd.chars]) h

/-- A normal text is the lines of the text, as a reader finds them, each closed by one line feed.
So it has these lines and no CR, nothing is left to make normal, and it does not depend on how the
lines of the text are ended. -/
theorem normalizeNewlines_writes_lines (text : List Char) :
    normalizeNewlines text = unlines (readLines text) ∧
      splitLines (normalizeNewlines text) = readLines text ∧
      '\r' ∉ normalizeNewlines text ∧
      (normalizeNewlines text = [] ∨ (normalizeNewlines text).getLast? = some '\n') ∧
      normalizeNewlines (normalizeNewlines text) = normalizeNewlines text ∧
      ('\r' ∉ text → ∀ lineEnd : LineEnd,
        normalizeNewlines (lineEnd.respell text) = normalizeNewlines text) := by
  have hfree := carriageReturn_not_mem_normalizeNewlines text
  have hclosed := closed_normalizeNewlines text
  refine ⟨normalizeNewlines_eq_unlines_readLines text, splitLines_normalizeNewlines_eq text, hfree,
    hclosed, normalizeNewlines_eq_self_iff.2 ⟨hfree, hclosed⟩, fun hreturn lineEnd => ?_⟩
  rw [normalizeNewlines_eq_unlines_readLines, normalizeNewlines_eq_unlines_readLines text,
    readLines_respell lineEnd hreturn]

/-- A blank line and a last line that is not closed, with each of the line ends. -/
theorem normalizeNewlines_of_blank_line_respelled :
    let text := ['a', '\n', '\n', ' ', 'b']
    '\r' ∉ text ∧
      normalizeNewlines text = ['a', '\n', '\n', ' ', 'b', '\n'] ∧
      normalizeNewlines ['a', '\r', '\n', '\r', '\n', ' ', 'b'] = ['a', '\n', '\n', ' ', 'b', '\n'] ∧
      normalizeNewlines ['a', '\r', '\r', ' ', 'b'] = ['a', '\n', '\n', ' ', 'b', '\n'] := by
  intro text
  have hreturn : '\r' ∉ text := by decide
  obtain ⟨hlines, -, -, -, -, hrespell⟩ := normalizeNewlines_writes_lines text
  have hnormal : normalizeNewlines text = ['a', '\n', '\n', ' ', 'b', '\n'] :=
    hlines.trans (by decide)
  exact ⟨hreturn, hnormal, (hrespell hreturn .pair).trans hnormal,
    (hrespell hreturn .carriageReturn).trans hnormal⟩

end BlockLexer.Text
