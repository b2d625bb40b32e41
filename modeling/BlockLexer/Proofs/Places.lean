import BlockLexer.Proofs.BodyOrigins
import BlockLexer.Proofs.Spelling
import BlockLexer.Proofs.Way

/-!
# The places of tokens

A scan keeps the byte, the line and the column of its place by hand, and a body takes its
place from the line table, long after the scan has passed it.  This module says that all
these numbers are right.

* `lineBehind` and `columnBehind` count in the text itself, `lineFront` is what stands in front of
  a place on its line, and `Scan.StandsIn.exists_line_at` is the line of a place.
* `Placed` is a token whose span is where its characters are in the text.
* `Scan.Clears` is what a scan keeps: nothing that it still yields begins in front of what it
  has yielded.
* `Scan.exists_placed_of_piece`, `Scan.exists_placed_of_body` and
  `Scan.Encloses.exists_placed` are the three kinds of tokens, and
  `Scan.exists_placed_of_makes` is a whole token.
* `Source.placed_of_tokens` is all tokens of a text.
-/

namespace BlockLexer

open Text Files

/-! ## Lines and columns of a text -/

/-- The line on which a text goes on behind some characters. -/
def lineBehind (before : List Char) : Nat :=
  1 + before.count '\n'

/-- The column in which a text goes on behind some characters. -/
def columnBehind (before : List Char) : Nat :=
  1 + (before.reverse.takeWhile (· ≠ '\n')).length

theorem Position.line_eq (before : List Char) :
    (({} : Position).after before).line = lineBehind before :=
  line_after _ _

theorem Position.column_eq (before : List Char) :
    (({} : Position).after before).column = columnBehind before := by
  induction before using List.reverseRecOn with
  | nil => rfl
  | append_singleton before c ih =>
    rw [after_append]
    show ((({} : Position).after before).next c).column = _
    unfold next columnBehind
    rw [List.reverse_append, List.reverse_singleton, List.singleton_append]
    by_cases hc : c = '\n'
    · rw [if_pos hc, List.takeWhile_cons_of_neg (by simpa using hc)]
      rfl
    · rw [if_neg hc, List.takeWhile_cons_of_pos (by simpa using hc), List.length_cons]
      show (({} : Position).after before).column + 1 = _
      rw [ih, columnBehind]
      omega

theorem Position.offset_eq (before : List Char) :
    (({} : Position).after before).offset = byteSize before := by
  rw [offset_after]
  exact Nat.zero_add _

/-! ## The line of a place -/

/-- What stands in front of a place on its line, if this has been passed. -/
def lineFront (passed : List Char) : List Char :=
  (passed.reverse.takeWhile (· ≠ '\n')).reverse

theorem lineFront_append {cs : List Char} (hcs : '\n' ∉ cs) (passed : List Char) :
    lineFront (passed ++ cs) = lineFront passed ++ cs := by
  have hall : ∀ c ∈ cs.reverse, (c ≠ '\n' : Bool) = true := fun c hc => by
    simpa using ne_of_mem_of_not_mem (List.mem_reverse.1 hc) hcs
  rw [lineFront, List.reverse_append, List.takeWhile_append_of_pos hall, List.reverse_append,
    List.reverse_reverse, lineFront]

theorem lineFront_append_lineFeed (passed : List Char) : lineFront (passed ++ ['\n']) = [] := by
  rw [lineFront, List.reverse_append]
  rfl

theorem lineFeed_not_mem_lineFront (passed : List Char) : '\n' ∉ lineFront passed := by
  intro hfeed
  have hne := List.mem_takeWhile_imp (List.mem_reverse.1 hfeed)
  simp at hne

theorem lineFront_unlines (lines : List (List Char)) : lineFront (unlines lines) = [] := by
  rcases getLast?_unlines lines with hnil | hlast
  · rw [hnil]
    rfl
  · obtain ⟨init, hinit⟩ := List.getLast?_eq_some_iff.1 hlast
    rw [hinit, lineFront_append_lineFeed]

theorem columnBehind_eq (before : List Char) : columnBehind before = 1 + (lineFront before).length := by
  rw [columnBehind, lineFront, List.length_reverse]

/-- On one line the column counts the characters. -/
theorem columnBehind_append {part : List Char} (hpart : '\n' ∉ part) (before : List Char) :
    columnBehind (before ++ part) = columnBehind before + part.length := by
  rw [columnBehind_eq, columnBehind_eq, lineFront_append hpart, List.length_append, Nat.add_assoc]

/-- Behind whole lines a text goes on in the first column. -/
theorem columnBehind_unlines (lines : List (List Char)) : columnBehind (unlines lines) = 1 := by
  rw [columnBehind_eq, lineFront_unlines]
  rfl

/-- A text is cut in front of its last line. -/
theorem exists_lineFront (passed : List Char) :
    ∃ above, passed = unlines above ++ lineFront passed ∧ above.length = passed.count '\n' ∧
      ∀ line ∈ above, '\n' ∉ line := by
  obtain ⟨above, front, rfl, hfront, habove⟩ := exists_unlines_append passed
  have hsame : lineFront (unlines above ++ front) = front := by
    rw [lineFront_append hfront, lineFront_unlines, List.nil_append]
  refine ⟨above, by rw [hsame], ?_, habove⟩
  rw [List.count_append, count_unlines habove, List.count_eq_zero.2 hfront, Nat.add_zero]

/-- The line of a place: what has been passed of it, and what is left of it. -/
theorem Scan.StandsIn.exists_line_at {text passed : List Char} {s : Scan} (h : StandsIn text s)
    (htext : text = passed ++ s.rest) (hrest : s.rest ≠ []) (tabWidth : Nat) :
    ∃ found, (LineTable.ofText tabWidth text).get? s.position.line = some found ∧
      found.chars = lineFront passed ++ s.rest.takeWhile (· ≠ '\n') ∧
      found.start + byteSize (lineFront passed) = byteSize passed := by
  obtain ⟨passed', htext', hposition⟩ := h
  obtain rfl : passed' = passed := List.append_cancel_right (htext'.symm.trans htext)
  obtain ⟨above, hpassed, hlength, habove⟩ := exists_lineFront passed'
  have hfront : ∀ c ∈ lineFront passed', (c ≠ '\n' : Bool) = true := fun c hc => by
    simpa using ne_of_mem_of_not_mem hc (lineFeed_not_mem_lineFront passed')
  have hne : lineFront passed' ++ s.rest ≠ [] := by simp [hrest]
  have hcut : text = unlines above ++ (lineFront passed' ++ s.rest) := by
    rw [← List.append_assoc, ← hpassed, htext]
  have hlines : splitLines text = above ++ splitLines (lineFront passed' ++ s.rest) := by
    rw [hcut, splitLines_unlines_append habove]
  rw [splitLines_eq_cons hne, List.takeWhile_append_of_pos hfront] at hlines
  have hnumber : s.position.line = above.length + 1 := by
    rw [hposition, Position.line_after, hlength, Nat.add_comm]
  rw [hnumber, LineTable.get?_ofText, hlines, List.getElem?_append_right (Nat.le_refl _),
    Nat.sub_self]
  refine ⟨_, rfl, rfl, ?_⟩
  rw [List.take_left, ← byteSize_append, ← hpassed]

/-! ## Tokens in their places -/

/-- What the characters of a token look like. -/
def Token.Spelled (token : Token) (lexeme : List Char) : Prop :=
  match token.kind with
  | .className | .instanceName | .attributeName | .identifier => token.value = .text lexeme
  | .blockEnd => equalsCaseless lexeme ['e', 'n', 'd'] = true
  | .string =>
    ∃ (style : QuoteStyle) (letter inner : List Char), IsLetter letter ∧
      lexeme = letter ++ style.quotes ++ inner ++ style.quotes ∧
      style.isTriple = isTripleQuoted lexeme
  | _ => True

/-- A string in single quotes that runs over the end of a line. -/
def Token.IsBroken (token : Token) (lexeme : List Char) : Prop :=
  token.kind = .string ∧ isTripleQuoted lexeme = false ∧ '\n' ∈ lexeme

/-- The span of a token is where its characters are: `before` stands in front of them in the
text, and `after` behind them.  Of a broken string the line is not the one on which it
begins. -/
structure Placed (text : List Char) (token : Token) (before lexeme after : List Char) : Prop where
  text : text = before ++ lexeme ++ after
  start : token.span.start = byteSize before
  stop : token.span.stop = byteSize before + byteSize lexeme
  line : ¬ token.IsBroken lexeme → token.span.line = lineBehind before
  column : token.span.column = columnBehind before
  spelled : token.Spelled lexeme
  ending : token.kind = .endOfText → lexeme = [] ∧ after = []

namespace Scan

variable {table : LineTable} {tabWidth : Nat} {text : List Char} {s t u v : Scan} {n : Nat}
  {pieces more : List Piece} {piece : Piece}

/-! ## Lines that are passed -/

/-- The first lines of a text, and what follows them. -/
theorem unlines_take_append_drop (hclosed : text = [] ∨ text.getLast? = some '\n') (k : Nat) :
    unlines ((splitLines text).take k) ++ unlines ((splitLines text).drop k) = text := by
  have happend : unlines ((splitLines text).take k ++ (splitLines text).drop k) =
      unlines ((splitLines text).take k) ++ unlines ((splitLines text).drop k) :=
    List.flatMap_append
  rw [← happend, List.take_append_drop, unlines_splitLines_of_closed hclosed]

/-- So many lines have been passed as line feeds. -/
theorem unlines_take_le {passed : List Char} {k : Nat} (hpassed : passed <+: text)
    (hclosed : text = [] ∨ text.getLast? = some '\n') (hk : k ≤ passed.count '\n') :
    unlines ((splitLines text).take k) <+: passed := by
  have hfree : ∀ line ∈ (splitLines text).take k, '\n' ∉ line :=
    fun line hline => lineFeed_not_mem_of_mem_splitLines (List.mem_of_mem_take hline)
  rcases List.prefix_or_prefix_of_prefix ⟨_, unlines_take_append_drop hclosed k⟩ hpassed with
    hle | ⟨rest, hrest⟩
  · exact hle
  · -- What the lines have more than the passed text ends with a line feed.
    have hcount := count_unlines hfree
    rw [← hrest, List.count_append, List.length_take] at hcount
    have hzero : rest.count '\n' = 0 := by omega
    rcases getLast?_unlines ((splitLines text).take k) with hnil | hlast
    · rw [hnil]
      exact List.nil_prefix
    · rcases List.eq_nil_or_concat rest with rfl | ⟨init, c, rfl⟩
      · rw [List.append_nil] at hrest
        exact ⟨[], by rw [hrest, List.append_nil]⟩
      · rw [List.concat_eq_append] at hrest hzero
        rw [← hrest, ← List.append_assoc, List.getLast?_concat] at hlast
        obtain rfl := Option.some.inj hlast
        rw [List.count_append] at hzero
        simp at hzero

/-- A text with fewer line feeds does not go beyond so many lines. -/
theorem prefix_unlines {passed : List Char} {k : Nat} (hpassed : passed <+: text)
    (hclosed : text = [] ∨ text.getLast? = some '\n') (hk : passed.count '\n' < k)
    (hle : k ≤ (splitLines text).length) : passed <+: unlines ((splitLines text).take k) := by
  have hfree : ∀ line ∈ (splitLines text).take k, '\n' ∉ line :=
    fun line hline => lineFeed_not_mem_of_mem_splitLines (List.mem_of_mem_take hline)
  rcases List.prefix_or_prefix_of_prefix ⟨_, unlines_take_append_drop hclosed k⟩ hpassed with
    ⟨rest, rfl⟩ | hle'
  · have hcount := count_unlines hfree
    rw [List.length_take, Nat.min_eq_left hle] at hcount
    rw [List.count_append, hcount] at hk
    omega
  · exact hle'

theorem byteSize_mono {cs ds : List Char} (h : cs <+: ds) : byteSize cs ≤ byteSize ds := by
  obtain ⟨rest, rfl⟩ := h
  rw [byteSize_append]
  exact Nat.le_add_right _ _

/-! ## What is still to come -/

/-- Nothing that a scan still yields begins in front of a byte: neither what it reads next,
nor the body that it has open. -/
structure Clears (table : LineTable) (n : Nat) (s : Scan) : Prop where
  le : n ≤ s.position.offset
  body : ∀ body outer ahead, s.modes = .body body :: outer →
    table.get? (body.marker + 1) = some ahead → n ≤ ahead.start

theorem Clears.settles (h : Clears table n s) (hsettles : Settles table piece s t) :
    Clears table n t := by
  refine ⟨hsettles.position_eq ▸ h.le, fun body outer ahead hmodes => ?_⟩
  rw [hsettles.same.1] at hmodes
  exact h.body body outer ahead hmodes

section Texts

variable (hclosed : text = [] ∨ text.getLast? = some '\n')
include hclosed

/-- The next line begins behind the place of a scan. -/
theorem StandsIn.offset_le_start (h : StandsIn text s) {ahead : Line}
    (hahead : (LineTable.ofText tabWidth text).get? (s.position.line + 1) = some ahead) :
    s.position.offset ≤ ahead.start := by
  obtain ⟨passed, htext, hposition⟩ := h
  rw [hposition, Position.line_eq, lineBehind] at hahead
  obtain ⟨i, hi, hget, -, hstart⟩ := LineTable.exists_of_get?_ofText hahead
  have hlength := (List.getElem?_eq_some_iff.1 hget).1
  have hpassed := prefix_unlines ⟨s.rest, htext.symm⟩ hclosed (k := i) (by omega) (by omega)
  rw [hposition, Position.offset_eq, hstart]
  exact byteSize_mono hpassed

/-- A step without a piece goes on, and a body that it opens starts on the next line. -/
theorem Clears.step_quiet (hway : OnWay (.ofText tabWidth text) text s)
    (h : Clears (.ofText tabWidth text) n s)
    (hstep : s.step (.ofText tabWidth text) = (t, none)) : Clears (.ofText tabWidth text) n t := by
  have hle : s.position.offset ≤ t.position.offset := by
    rcases exists_of_step none hstep with ⟨-, rfl, -⟩ | ⟨rule, m, a, left, -, -, -, -, -, hmoved⟩
    · exact Nat.le_refl _
    · rw [hmoved, Position.offset_after]
      exact Nat.le_add_right _ _
  refine ⟨Nat.le_trans h.le hle, fun body outer ahead hmodes hahead => ?_⟩
  by_cases hin : ∃ body' outer', s.modes = .body body' :: outer'
  · obtain ⟨body', outer', hin⟩ := hin
    obtain ⟨-, ⟨-, -, hsame⟩ | ⟨closed, -, -, hpiece⟩⟩ := step_in_body none hin hstep
    · exact h.body body outer ahead (hsame.symm.trans hmodes) hahead
    · cases hpiece
  · obtain ⟨-, hmode, rfl⟩ := (effect_of_step_quiet hstep).1.opens_body hway.stacked
      (fun outer' hout => hin ⟨body, outer', hout⟩) hmodes
    obtain ⟨marker, hmarker, rfl, -⟩ := exists_marker_of_step hstep hmode hmodes
    have hnumber : marker.number = s.position.line :=
      LineTable.numbered_ofText tabWidth text _ _ hmarker
    rw [OpenBody.ofMarker, hnumber] at hahead
    exact Nat.le_trans h.le (hway.stands.offset_le_start hclosed hahead)

/-- A run without pieces keeps both. -/
theorem onWay_clears_of_run (hrun : Run (.ofText tabWidth text) s [] t)
    (hway : OnWay (.ofText tabWidth text) text s) (h : Clears (.ofText tabWidth text) n s) :
    OnWay (.ofText tabWidth text) text t ∧ Clears (.ofText tabWidth text) n t := by
  generalize hall : ([] : List Piece) = all at hrun
  induction hrun with
  | refl s => exact ⟨hway, h⟩
  | quiet hs hstep _ ih =>
    have hway' := hway.step none (LineTable.numbered_ofText tabWidth text) hs hstep
    exact ih hway' (h.step_quiet hclosed hway hstep) hall
  | piece => cases hall

end Texts

/-! ## Tokens of a run -/

/-- A piece that is a token of its own has the spelling of this token. -/
theorem spelled_of_cuts {kind : Kind} {lexeme rest left : List Char}
    (hcuts : s.Cuts piece lexeme rest left) (hkind : piece.kind = .token kind) :
    ({ kind, value := piece.value, span := piece.span } : Token).Spelled lexeme ∧
      (kind = .endOfText → lexeme = [] ∧ rest ++ left = []) := by
  have hspelled := hcuts.spelled
  unfold BlockLexer.Spelled at hspelled
  rw [hkind] at hspelled
  unfold Token.Spelled
  cases kind with
  | className | instanceName | attributeName | identifier | blockEnd =>
    exact ⟨hspelled, fun hend => by cases hend⟩
  | endOfText => exact ⟨trivial, fun _ => hspelled⟩
  | string => exact hspelled.elim
  | _ => exact ⟨trivial, fun hend => by cases hend⟩

/-- A token that is a piece of its own stands where the scan was. -/
theorem exists_placed_of_piece {kind : Kind} (hstands : StandsIn text s)
    (hstep : s.step table = (t, some (.ok piece))) (hkind : piece.kind = .token kind)
    (hbody : kind ≠ .body) :
    ∃ before lexeme after, Placed text { kind, value := piece.value, span := piece.span }
        before lexeme after ∧
      piece.span.start = s.position.offset ∧ piece.span.stop ≤ t.position.offset := by
  obtain ⟨passed, htext, hposition⟩ := hstands
  obtain ⟨lexeme, rest, hcuts, hmoved⟩ := exists_cuts_of_step hstep
    (fun he => hbody (PieceKind.token.inj (hkind.symm.trans he)))
  have hoffset : s.position.offset = byteSize passed := by rw [hposition, Position.offset_eq]
  have hspan := hcuts.span
  obtain ⟨hspelled, hend⟩ := spelled_of_cuts hcuts hkind
  refine ⟨passed, lexeme, rest ++ t.rest, ⟨?_, ?_, ?_, fun _ => ?_, ?_, hspelled, hend⟩, ?_, ?_⟩
  · rw [htext, hcuts.rest, List.append_assoc]
  · rw [hspan]
    exact hoffset
  · rw [hspan]
    exact congrArg (· + byteSize lexeme) hoffset
  · rw [hspan]
    show s.position.line = _
    rw [hposition, Position.line_eq]
  · rw [hspan]
    show s.position.column = _
    rw [hposition, Position.column_eq]
  · rw [hspan]
    rfl
  · rw [hspan, hmoved, Position.offset_after, byteSize_append]
    show s.position.offset + byteSize lexeme ≤ _
    omega

/-- The text of a body: what stands in front of its first line, what it takes, and what
follows it. -/
theorem exists_split_of_lines (hclosed : text = [] ∨ text.getLast? = some '\n') {k last : Nat}
    {chars : List Char} (hlast : (splitLines text)[last]? = some chars) (hle : k ≤ last) :
    ∃ lexeme, text = unlines ((splitLines text).take k) ++ lexeme ++
        '\n' :: unlines ((splitLines text).drop (last + 1)) ∧
      unlines ((splitLines text).take k) ++ lexeme =
        unlines ((splitLines text).take last) ++ chars := by
  have hbegins : (splitLines text).take k <+: (splitLines text).take last :=
    List.take_prefix_take_left hle
  obtain ⟨between, hbetween⟩ := hbegins
  have hsplit : unlines ((splitLines text).take k) ++ (unlines between ++ chars) =
      unlines ((splitLines text).take last) ++ chars := by
    rw [← hbetween, ← List.append_assoc]
    exact congrArg (· ++ chars) List.flatMap_append.symm
  refine ⟨unlines between ++ chars, ?_, hsplit⟩
  rw [hsplit]
  obtain ⟨hlength, hget⟩ := List.getElem?_eq_some_iff.1 hlast
  have hdrop : (splitLines text).drop last = chars :: (splitLines text).drop (last + 1) := by
    rw [List.drop_eq_getElem_cons hlength, hget]
  have hwhole := unlines_take_append_drop hclosed last
  rw [hdrop, unlines_cons] at hwhole
  rw [List.append_assoc]
  exact hwhole.symm

/-- What takes some text behind the first lines is placed there. -/
theorem placed_behind_lines {k : Nat} {span : Span} {lexeme after : List Char} {value : Value}
    (hk : k ≤ (splitLines text).length)
    (hsplit : text = unlines ((splitLines text).take k) ++ lexeme ++ after)
    (hstart : span.start = byteSize (unlines ((splitLines text).take k)))
    (hstop : span.stop = span.start + byteSize lexeme) (hline : span.line = k + 1)
    (hcolumn : span.column = 1) :
    Placed text { kind := .body, value, span } (unlines ((splitLines text).take k)) lexeme
      after := by
  have hlines : ∀ line ∈ (splitLines text).take k, '\n' ∉ line :=
    fun line hline => lineFeed_not_mem_of_mem_splitLines (List.mem_of_mem_take hline)
  have hbehind : lineBehind (unlines ((splitLines text).take k)) = k + 1 := by
    rw [lineBehind, count_unlines hlines, List.length_take, Nat.min_eq_left hk, Nat.add_comm]
  refine ⟨hsplit, hstart, ?_, fun _ => hline.trans hbehind.symm, ?_, trivial, fun hend => by
    cases hend⟩
  · rw [hstop, hstart]
  · rw [columnBehind_unlines]
    exact hcolumn

/-- The lines in front of the one on which a scan stands have been passed. -/
theorem StandsIn.byteSize_take_le (hstands : StandsIn text t)
    (hclosed : text = [] ∨ text.getLast? = some '\n') {k : Nat} (hk : k < t.position.line) :
    byteSize (unlines ((splitLines text).take k)) ≤ t.position.offset := by
  obtain ⟨passed, htext, hposition⟩ := hstands
  rw [hposition, Position.line_eq, lineBehind] at hk
  rw [hposition, Position.offset_eq]
  exact byteSize_mono (unlines_take_le ⟨t.rest, htext.symm⟩ hclosed (by omega))

/-- A body stands behind its marker, on lines that have been passed. -/
theorem exists_placed_of_body (hclosed : text = [] ∨ text.getLast? = some '\n')
    (hway : OnWay (.ofText tabWidth text) text s) (hclears : Clears (.ofText tabWidth text) n s)
    (hs : s.isDone = false) (hstep : s.step (.ofText tabWidth text) = (t, some (.ok piece)))
    (hkind : piece.kind = .token .body) :
    ∃ before lexeme after, Placed text { kind := .body, value := piece.value, span := piece.span }
        before lexeme after ∧
      n ≤ piece.span.start ∧ piece.span.stop ≤ t.position.offset := by
  rcases effect_of_step hs hstep with ⟨-, hend, -⟩ | ⟨-, he, -⟩
  · cases hend.symm.trans hkind
  obtain ⟨body, htop⟩ := he.closes_body hkind
  obtain ⟨hline, ⟨-, hnone, -⟩ | ⟨closed, hclose, -, hsome⟩⟩ :=
    step_in_body (some piece) htop hstep
  · cases hnone
  obtain rfl := Option.some.inj hsome
  have hholds := hway.bodies body _ htop
  obtain ⟨ahead, last, hahead, -, hlast, rfl⟩ := OpenBody.exists_of_step hclose
  have hsize := LineTable.le_size_of_get? hahead
  have hmarker := hholds.le
  -- The first line of the body, which a later line is known to follow.
  obtain ⟨first, hfirst⟩ := (LineTable.ofText tabWidth text).exists_get? (body.marker + 1)
    (Nat.succ_pos _) (by omega)
  have hstart := hholds.start first hfirst
  have hfree := hclears.body body _ first htop hfirst
  obtain ⟨i, hi, hget, -, hbytes⟩ := LineTable.exists_of_get?_ofText hfirst
  obtain rfl : i = body.marker := by omega
  have hlength := Nat.le_of_lt (List.getElem?_eq_some_iff.1 hget).1
  rw [hbytes] at hstart
  -- The scan stands behind the last line of the body.
  have hstands := (hway.step (some _) (LineTable.numbered_ofText tabWidth text) hs hstep).stands
  have hreached {k : Nat} (hk : k ≤ s.position.line) :
      byteSize (unlines ((splitLines text).take k)) ≤ t.position.offset :=
    hstands.byteSize_take_le hclosed (hline ▸ Nat.lt_succ_of_le hk)
  by_cases hfilled : body.marker < last
  · simp only [if_pos hfilled]
    obtain ⟨line, hline⟩ := (LineTable.ofText tabWidth text).exists_get? last (by omega) (by omega)
    obtain ⟨j, rfl, hget', -, hbytes'⟩ := LineTable.exists_of_get?_ofText hline
    obtain ⟨lexeme, hsplit, hjoin⟩ := exists_split_of_lines hclosed hget' (by omega : body.marker ≤ j)
    have hstop : (body.close (.ofText tabWidth text) (some (j + 1))).stop =
        byteSize (unlines ((splitLines text).take j) ++ line.chars) := by
      show ((some (j + 1)).bind (LineTable.ofText tabWidth text).get?).elim _ Line.stop = _
      rw [Option.bind_some, hline, Option.elim_some, Line.stop, hbytes', byteSize_append]
    refine ⟨_, lexeme, _, placed_behind_lines hlength hsplit hstart ?_ rfl rfl, ?_, ?_⟩
    · show (body.close (.ofText tabWidth text) (some (j + 1))).stop = body.start + _
      rw [hstop, ← hjoin, byteSize_append, hstart]
    · show n ≤ body.start
      rw [hstart, ← hbytes]
      exact hfree
    · show (body.close (.ofText tabWidth text) (some (j + 1))).stop ≤ _
      rw [hstop]
      refine Nat.le_trans ?_ (hreached hlast)
      obtain ⟨hj, hchars⟩ := List.getElem?_eq_some_iff.1 hget'
      rw [List.take_succ_eq_append_getElem hj, hchars]
      apply byteSize_mono
      refine ⟨['\n'], ?_⟩
      simp [unlines]
  · simp only [if_neg hfilled]
    refine ⟨_, [], unlines ((splitLines text).drop body.marker),
      placed_behind_lines hlength ?_ hstart rfl rfl rfl, ?_, ?_⟩
    · rw [List.append_nil]
      exact (unlines_take_append_drop hclosed body.marker).symm
    · show n ≤ body.start
      rw [hstart, ← hbytes]
      exact hfree
    · show body.start ≤ _
      rw [hstart]
      exact hreached hmarker

/-- The span of a string goes from its opening quotes to its closing ones. -/
theorem span_of_literal {style : QuoteStyle} {start stop : Piece} {chars : List Char}
    {token : Token} (h : Assembly.literal style start stop chars = .ok token) :
    token.kind = .string ∧ token.span =
      { start := start.span.start
        stop := stop.span.stop
        line := if style.isTriple then start.span.line else stop.span.line
        column := start.span.column } := by
  unfold Assembly.literal at h
  split at h
  · cases h
  · obtain rfl := Except.ok.inj h
    exact ⟨rfl, rfl⟩

/-- The beginning of a string opens it, in an expression. -/
theorem modes_of_stringStart {style : QuoteStyle} {raw : Bool} (hs : s.isDone = false)
    (hstep : s.step table = (t, some (.ok piece))) (hkind : piece.kind = .stringStart style raw) :
    s.mode = .expression ∧ ∃ line column, t.modes = .string style raw line column :: s.modes := by
  rcases effect_of_step hs hstep with ⟨-, hend, -⟩ | ⟨-, he, -⟩
  · cases hend.symm.trans hkind
  cases he with
  | stringOpens hopen hmode hmodes =>
    obtain ⟨rfl, rfl⟩ := PieceKind.stringStart.inj (hopen.symm.trans hkind)
    exact ⟨hmode, _, _, hmodes⟩
  | still hquiet =>
    have hquiet := hquiet piece rfl
    rw [hkind] at hquiet
    cases hquiet
  | membersBegin _ hother | named hother | blockOpens hother | blockCloses hother
  | expressionOpens hother | expressionCloses hother | bodyCloses hother | term hother
  | bracketTurns hother | stringCloses hother => cases hother.symm.trans hkind

/-- The style in which a string is opened is the one in which it is closed. -/
theorem mode_of_parts {m : Scan} {style : QuoteStyle} {raw : Bool} (hs : s.isDone = false)
    (hstep : s.step table = (t, some (.ok piece))) (hkind : piece.kind = .stringStart style raw)
    (hsettles : Settles table piece t u) (hrun : Run table u pieces m)
    (hparts : ∀ part ∈ pieces, part.kind.IsPart) : m.mode = .string style := by
  obtain ⟨-, line, column, hmodes⟩ := modes_of_stringStart hs hstep hkind
  exact mode_eq_string (hrun.modes_of_parts hparts (hsettles.same.1.trans hmodes))

/-- The spelling of the quotes that open and close a string. -/
theorem exists_letter_of_cuts {style : QuoteStyle} {raw : Bool} {lexeme rest left : List Char}
    (hcuts : s.Cuts piece lexeme rest left) (hkind : piece.kind = .stringStart style raw) :
    rest = [] ∧ ∃ letter, IsLetter letter ∧ lexeme = letter ++ style.quotes ∧
      (style.isTriple = false → ¬ [style.mark, style.mark] <+: left) := by
  have hspelled := hcuts.spelled
  unfold BlockLexer.Spelled at hspelled
  rw [hkind] at hspelled
  obtain rfl := hcuts.string (by simp [hkind])
  exact ⟨rfl, hspelled⟩

theorem eq_quotes_of_cuts {style : QuoteStyle} {lexeme rest left : List Char}
    (hcuts : s.Cuts piece lexeme rest left) (hkind : piece.kind = .stringEnd)
    (hmode : s.mode = .string style) : rest = [] ∧ lexeme = style.quotes := by
  have hspelled := hcuts.spelled
  unfold BlockLexer.Spelled at hspelled
  rw [hkind] at hspelled
  obtain ⟨style', hmode', rfl⟩ := hspelled
  rw [Mode.string.inj (hmode.symm.trans hmode')]
  exact ⟨hcuts.string (by simp [hkind]), rfl⟩

/-- The characters of a string, which the scan `s` has in front of it and the scan `t` behind
it.  `start` and `stop` are its first and its last piece. -/
structure Encloses (s t : Scan) (style : QuoteStyle) (start stop : Piece)
    (letter inner : List Char) : Prop where
  isLetter : IsLetter letter
  rest : s.rest = letter ++ style.quotes ++ inner ++ style.quotes ++ t.rest
  triple : style.isTriple =
    isTripleQuoted (letter ++ style.quotes ++ inner ++ style.quotes)
  offset : start.span.start = s.position.offset
  line : start.span.line = s.position.line
  column : start.span.column = s.position.column
  endOffset : stop.span.stop =
    s.position.offset + byteSize (letter ++ style.quotes ++ inner ++ style.quotes)
  endLine : stop.span.line = s.position.line + (letter ++ style.quotes ++ inner).count '\n'
  behind : stop.span.stop = t.position.offset

/-- A string is read from its opening quotes to its closing ones. -/
theorem exists_encloses {s₁ s₂ s₃ : Scan} {start stop : Piece} {parts : List Piece}
    {style : QuoteStyle} {raw : Bool} (hs : s.isDone = false)
    (hopen : s.step table = (s₁, some (.ok start))) (hsettles : Settles table start s₁ s₂)
    (hrun : Run table s₂ parts s₃) (hclose : s₃.step table = (t, some (.ok stop)))
    (hstart : start.kind = .stringStart style raw) (hparts : ∀ part ∈ parts, part.kind.IsPart)
    (hstop : stop.kind = .stringEnd) :
    ∃ letter inner, Encloses s t style start stop letter inner := by
  obtain ⟨lexeme₁, rest₁, hcuts₁, hmoved₁⟩ := exists_cuts_of_step hopen (by simp [hstart])
  obtain ⟨rfl, letter, hletter, rfl, hsingle⟩ := exists_letter_of_cuts hcuts₁ hstart
  obtain ⟨inner, hinner, hmoved₂⟩ := hrun.exists_passed
  obtain ⟨lexeme₃, rest₃, hcuts₃, hmoved₃⟩ := exists_cuts_of_step hclose (by simp [hstop])
  obtain ⟨rfl, rfl⟩ := eq_quotes_of_cuts hcuts₃ hstop
    (mode_of_parts hs hopen hstart hsettles hrun hparts)
  rw [hsettles.rest_eq] at hinner
  rw [List.append_nil] at hmoved₁ hmoved₃
  rw [hsettles.position_eq, hmoved₁, ← Position.after_append] at hmoved₂
  have hstop₃ : stop.span.stop =
      s.position.offset + byteSize (letter ++ style.quotes ++ inner ++ style.quotes) := by
    rw [hcuts₃.span]
    show s₃.position.offset + byteSize style.quotes = _
    rw [hmoved₂, Position.offset_after, byteSize_append _ style.quotes, Nat.add_assoc]
  have hnot : style.isTriple = false → ¬ [style.mark, style.mark] <+: inner ++ style.quotes := by
    intro hfalse hbegins
    refine hsingle hfalse (hbegins.trans ⟨t.rest, ?_⟩)
    rw [List.append_assoc, hinner, hcuts₃.rest, List.nil_append]
  refine ⟨letter, inner, hletter, ?_, ?_, ?_, ?_, ?_, hstop₃, ?_, ?_⟩
  · rw [hcuts₁.rest, hinner, hcuts₃.rest]
    simp only [List.append_assoc, List.nil_append]
  · rw [← isTripleQuoted_append hletter hnot]
    simp only [List.append_assoc]
  · rw [hcuts₁.span]
    rfl
  · rw [hcuts₁.span]
    rfl
  · rw [hcuts₁.span]
    rfl
  · rw [hcuts₃.span]
    show s₃.position.line = _
    rw [hmoved₂, Position.line_after]
  · rw [hstop₃, hmoved₃, hmoved₂, Position.offset_after, Position.offset_after,
      byteSize_append _ style.quotes, Nat.add_assoc]

/-- A string stands from its opening quotes to its closing ones. -/
theorem Encloses.exists_placed {start stop : Piece} {style : QuoteStyle}
    {letter inner chars : List Char} {token : Token} (h : Encloses s t style start stop letter inner)
    (hstands : StandsIn text s) (hliteral : Assembly.literal style start stop chars = .ok token) :
    ∃ before, s.position = ({} : Position).after before ∧
      Placed text token before (letter ++ style.quotes ++ inner ++ style.quotes) t.rest ∧
      token.span.start = s.position.offset ∧ token.span.stop ≤ t.position.offset := by
  obtain ⟨before, htext, hposition⟩ := hstands
  obtain ⟨hkind, hspan⟩ := span_of_literal hliteral
  have hoffset : s.position.offset = byteSize before := by rw [hposition, Position.offset_eq]
  refine ⟨before, hposition,
    ⟨?_, ?_, ?_, fun hbroken => ?_, ?_, ?_, fun hend => ?_⟩, ?_, ?_⟩
  · rw [htext, h.rest, List.append_assoc before]
  · rw [hspan, ← hoffset]
    exact h.offset
  · rw [hspan, ← hoffset]
    exact h.endOffset
  · rw [hspan]
    show (if style.isTriple = true then start.span.line else stop.span.line) = _
    by_cases hstyle : style.isTriple = true
    · rw [if_pos hstyle, h.line, hposition, Position.line_eq]
    · -- A string that is not broken ends on the line on which it begins.
      have hfree : '\n' ∉ letter ++ style.quotes ++ inner ++ style.quotes := by
        intro hmem
        rw [h.triple, Bool.not_eq_true] at hstyle
        exact hbroken ⟨hkind, hstyle, hmem⟩
      have hcount : (letter ++ style.quotes ++ inner).count '\n' = 0 :=
        List.count_eq_zero.2 fun hmem => hfree (List.mem_append_left _ hmem)
      rw [if_neg hstyle, h.endLine, hcount, hposition, Position.line_eq]
      rfl
  · rw [hspan, ← Position.column_eq, ← hposition]
    exact h.column
  · unfold Token.Spelled
    rw [hkind]
    exact ⟨style, letter, inner, h.isLetter, rfl, h.triple⟩
  · cases hkind.symm.trans hend
  · rw [hspan]
    exact h.offset
  · rw [hspan]
    exact Nat.le_of_eq h.behind

/-- The token that the first pieces of a run make stands in its place, in front of all that
the run still yields. -/
theorem exists_placed_of_makes (hclosed : text = [] ∨ text.getLast? = some '\n')
    {token : Token} (hmakes : Makes pieces token)
    (hrun : Run (.ofText tabWidth text) s (pieces ++ more) u)
    (hway : OnWay (.ofText tabWidth text) text s) (hclears : Clears (.ofText tabWidth text) n s) :
    ∃ v, Run (.ofText tabWidth text) v more u ∧ OnWay (.ofText tabWidth text) text v ∧
      Clears (.ofText tabWidth text) token.span.stop v ∧ n ≤ token.span.start ∧
      ∃ before lexeme after, Placed text token before lexeme after := by
  have hnumbered := LineTable.numbered_ofText tabWidth text
  -- Behind a step that yields a piece there is nothing to clear but the place itself.
  have clears {m t v : Scan} {piece : Piece} {stop : Nat}
      (hway : OnWay (.ofText tabWidth text) text m) (hm : m.isDone = false)
      (hstep : m.step (.ofText tabWidth text) = (t, some (.ok piece)))
      (hsettles : Settles (.ofText tabWidth text) piece t v) (hle : stop ≤ t.position.offset) :
      OnWay (.ofText tabWidth text) text v ∧ Clears (.ofText tabWidth text) stop v := by
    have hway' := hway.step (some piece) hnumbered hm hstep
    have hclears' : Clears (.ofText tabWidth text) stop t :=
      ⟨hle, fun body outer _ hmodes => absurd hmodes (hway.not_body_of_step hm hstep body outer)⟩
    exact ⟨hway'.settles hsettles, hclears'.settles hsettles⟩
  cases hmakes with
  | @token piece kind hkind =>
    obtain ⟨m, t, v, hquiet, hm, hstep, hsettles, hrest⟩ := Run.uncons hrun
    obtain ⟨hway, hclears⟩ := onWay_clears_of_run hclosed hquiet hway hclears
    by_cases hbody : kind = .body
    · subst hbody
      obtain ⟨before, lexeme, after, hplaced, hstart, hstop⟩ :=
        exists_placed_of_body hclosed hway hclears hm hstep hkind
      obtain ⟨hway', hclears'⟩ := clears hway hm hstep hsettles hstop
      exact ⟨v, hrest, hway', hclears', hstart, before, lexeme, after, hplaced⟩
    · obtain ⟨before, lexeme, after, hplaced, hstart, hstop⟩ :=
        exists_placed_of_piece hway.stands hstep hkind hbody
      obtain ⟨hway', hclears'⟩ := clears hway hm hstep hsettles hstop
      exact ⟨v, hrest, hway', hclears', hstart ▸ hclears.le, before, lexeme, after, hplaced⟩
  | @string start stop parts style raw token hstart hparts hstop hliteral =>
    obtain ⟨m, t₁, v₁, m', t, v, hquiet, hm, hopen, hsettles, hparts', hm', hclose, hsettles',
      hrest⟩ := Run.uncons_string hrun
    obtain ⟨hway, hclears⟩ := onWay_clears_of_run hclosed hquiet hway hclears
    obtain ⟨letter, inner, hencloses⟩ :=
      exists_encloses hm hopen hsettles hparts' hclose hstart hparts hstop
    obtain ⟨before, -, hplaced, hfirst, hlast⟩ := hencloses.exists_placed hway.stands hliteral
    have hway' : OnWay (.ofText tabWidth text) text m' :=
      ((hway.step (some start) hnumbered hm hopen).settles hsettles).run hnumbered hparts'
    obtain ⟨hway'', hclears'⟩ := clears hway' hm' hclose hsettles' hlast
    exact ⟨v, hrest, hway'', hclears', hfirst ▸ hclears.le, before, _, t.rest, hplaced⟩

/-- All tokens of a run stand in their places, one behind the other. -/
theorem placed_of_assembled (hclosed : text = [] ∨ text.getLast? = some '\n')
    {tokens : List Token} (hassembled : Assembled pieces tokens)
    (hrun : Run (.ofText tabWidth text) s pieces u) (hway : OnWay (.ofText tabWidth text) text s)
    (hclears : Clears (.ofText tabWidth text) n s) :
    (∀ token ∈ tokens, n ≤ token.span.start ∧
      ∃ before lexeme after, Placed text token before lexeme after) ∧
      tokens.Pairwise fun token other => token.span.stop ≤ other.span.start := by
  induction hassembled generalizing s n with
  | nil => exact ⟨by simp, .nil⟩
  | drop hmakes _ _ ih =>
    obtain ⟨v, hrest, hway', hclears', hfirst, before, lexeme, after, hplaced⟩ :=
      exists_placed_of_makes hclosed hmakes hrun hway hclears
    obtain ⟨hall, hpairwise⟩ := ih hrest hway' hclears'
    refine ⟨fun token htoken => ⟨?_, (hall token htoken).2⟩, hpairwise⟩
    have hlater := (hall token htoken).1
    rw [hplaced.stop, ← hplaced.start] at hlater
    omega
  | keep hmakes _ _ ih =>
    obtain ⟨v, hrest, hway', hclears', hfirst, before, lexeme, after, hplaced⟩ :=
      exists_placed_of_makes hclosed hmakes hrun hway hclears
    obtain ⟨hall, hpairwise⟩ := ih hrest hway' hclears'
    refine ⟨List.forall_mem_cons.2 ⟨⟨hfirst, before, lexeme, after, hplaced⟩,
      fun token htoken => ⟨?_, (hall token htoken).2⟩⟩, List.pairwise_cons.2
      ⟨fun token htoken => (hall token htoken).1, hpairwise⟩⟩
    have hlater := (hall token htoken).1
    rw [hplaced.stop, ← hplaced.start] at hlater
    omega

end Scan

/-- In a text that is read to its end without a fault, the span of every token is where its
characters are in the text in which imports stand in their places, and no token begins in
front of the end of the one before it. -/
theorem Source.placed_of_tokens {tree : FileTree} {config : Config} {text : List Char}
    {origin : Path} {source : Source} {tokens : List Token}
    (hsource : (Source.ofText tree config text origin).outcome = .ok source)
    (htokens : Lexer.tokens source = .ok tokens) :
    (∀ token ∈ tokens, ∃ before lexeme after, Placed source.text token before lexeme after) ∧
      tokens.Pairwise fun token other => token.span.stop ≤ other.span.start := by
  obtain ⟨pieces, u, hrun, -, hassembled, -⟩ := Lexer.assembled_of_tokens htokens
  rw [table_of_ofText hsource] at hrun
  have hway : Scan.OnWay (.ofText config.tabWidth source.text) source.text
      (Lexer.ofSource source).scan := Scan.onWay_of_start _ rfl rfl rfl rfl
  have hclears : Scan.Clears (.ofText config.tabWidth source.text) 0 (Lexer.ofSource source).scan :=
    ⟨Nat.zero_le _, fun body outer ahead hmodes => by cases hmodes⟩
  obtain ⟨hall, hpairwise⟩ :=
    Scan.placed_of_assembled (closed_of_ofText hsource) hassembled hrun hway hclears
  exact ⟨fun token htoken => (hall token htoken).2, hpairwise⟩

/-- A string with a character of two bytes, and a body behind it. -/
theorem Source.placed_of_wide_character :
    ∃ source tokens, (Source.ofText ⟨[], []⟩ {} ['A', ' ', 'b', '\n', ' ', 'x', '=', '\x27', 'é',
        '\x27', '\n', ' ', '-', '-', '-', '\n', ' ', 't', '\n', ' ', '-', '-', '-', '\n', 'E', 'n',
        'd'] textOrigin).outcome = .ok source ∧
      Lexer.tokens source = .ok tokens ∧
      tokens.map (fun token => (token.kind, token.span)) = [(.className, ⟨0, 1, 1, 1⟩),
        (.instanceName, ⟨2, 3, 1, 3⟩), (.attributeName, ⟨5, 6, 2, 2⟩), (.string, ⟨7, 11, 2, 4⟩),
        (.body, ⟨17, 19, 4, 1⟩), (.blockEnd, ⟨25, 28, 6, 1⟩), (.endOfText, ⟨29, 29, 7, 1⟩)] ∧
      (∀ token ∈ tokens, ∃ before lexeme after, Placed source.text token before lexeme after) ∧
      tokens.Pairwise fun token other => token.span.stop ≤ other.span.start := by
  have hrun : (tokenize ⟨[], []⟩ {} ['A', ' ', 'b', '\n', ' ', 'x', '=', '\x27', 'é',
      '\x27', '\n', ' ', '-', '-', '-', '\n', ' ', 't', '\n', ' ', '-', '-', '-', '\n', 'E', 'n',
      'd'] textOrigin).map (List.map fun token => (token.kind, token.span)) =
        .ok [(.className, ⟨0, 1, 1, 1⟩),
        (.instanceName, ⟨2, 3, 1, 3⟩), (.attributeName, ⟨5, 6, 2, 2⟩), (.string, ⟨7, 11, 2, 4⟩),
        (.body, ⟨17, 19, 4, 1⟩), (.blockEnd, ⟨25, 28, 6, 1⟩), (.endOfText, ⟨29, 29, 7, 1⟩)] := by
    decide +kernel
  obtain ⟨tokens, htokenize, hspans⟩ := exists_of_map_eq_ok hrun
  obtain ⟨source, hsource, htokens⟩ := exists_of_bind_eq_ok htokenize
  obtain ⟨hplaced, hpairwise⟩ := Source.placed_of_tokens hsource htokens
  exact ⟨source, tokens, hsource, htokens, hspans, hplaced, hpairwise⟩

end BlockLexer
