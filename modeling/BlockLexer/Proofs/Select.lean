import BlockLexer.Proofs.Forest

/-!
# The rule that wins

The rules of a mode are tried in order, and the first one wins however long its match is.
For what a forest is written with, these lemmas find the winner, and so say that none of
the rules in front of it interferes.
-/

namespace BlockLexer

open Text Pattern Lexeme

/-! ## First matches -/

/-- The first rule in the table of a mode that matches is selected. -/
theorem Mode.select_of_split {mode : Mode} {cs : List Char} {rule : Rule} {m : Match}
    (before : List Rule) {after : List Rule} (hrules : mode.rules = before ++ rule :: after)
    (hbefore : ∀ other ∈ before, other.match? cs = none) (hmatch : rule.match? cs = some m)
    (hne : m.lexeme ≠ []) : mode.select cs = some (rule, m) := by
  have hnone : before.findSome? (Rule.take? cs) = none := by
    rw [List.findSome?_eq_none_iff]
    intro other hother
    rw [Rule.take?, hbefore other hother]
  have htake : Rule.take? cs rule = some (rule, m) := by
    rw [Rule.take?, hmatch]
    simp [hne]
  rw [Mode.select, hrules, List.findSome?_append, hnone, Option.none_or, List.findSome?_cons, htake]

theorem Match.ofPattern_eq_none {a : Pattern} {cs : List Char} (h : a cs = none) :
    Match.ofPattern a cs = none := by
  rw [Match.ofPattern, h]
  rfl

theorem Match.ofPattern_eq_some {a : Pattern} {cs x left : List Char} (h : a cs = some (x, left)) :
    Match.ofPattern a cs = some { lexeme := x } := by
  rw [Match.ofPattern, h]
  rfl

/-- What may follow a term: a space or the end of the line. -/
def Ends (rest : List Char) : Prop :=
  ∃ more, rest = ' ' :: more ∨ rest = '\n' :: more

theorem Ends.stops {rest : List Char} {p : Char → Bool} (h : Ends rest) (hspace : p ' ' = false)
    (hfeed : p '\n' = false) : Stops p rest := by
  obtain ⟨more, rfl | rfl⟩ := h
  · exact stops_cons hspace
  · exact stops_cons hfeed

theorem ends_space (rest : List Char) : Ends (' ' :: rest) := ⟨rest, .inl rfl⟩

theorem ends_lineFeed (rest : List Char) : Ends ('\n' :: rest) := ⟨rest, .inr rfl⟩

/-! ## Lexemes that do not match -/

namespace Lexeme

variable {cs word rest : List Char} {indent : Nat}

/-- Spaces and a name are no comment. -/
theorem comment_append (indent : Nat) (hblank : Stops isBlank cs) (hremark : Stops (· = ';') cs) :
    comment (List.replicate indent ' ' ++ cs) = none :=
  seq_eq_none_of_right (gap_append indent hblank) (seq_eq_none_of_left (one_eq_none hremark))

theorem comment_eq_none (hblank : Stops isBlank cs) (hremark : Stops (· = ';') cs) :
    comment cs = none :=
  comment_append 0 hblank hremark

theorem word_eq_none {first : Char} {more : List Char} (h : Stops (· = first) cs) :
    Pattern.word (first :: more) cs = none := by
  unfold Pattern.word
  rw [if_neg]
  cases cs with
  | nil => simp
  | cons c cs =>
    have hc : decide (c = first) = false := h c rfl
    intro he
    exact absurd (List.cons.inj he).1 (by simpa using hc)

theorem word_quotes_eq_none (style : QuoteStyle) (h : Stops (· = style.mark) cs) :
    Pattern.word style.quotes cs = none := by
  cases style <;> exact word_eq_none h

theorem digits_eq_none (h : Stops Char.isDigit cs) : digits cs = none :=
  seq_eq_none_of_left (one_eq_none h)

theorem orElse_eq_none {a b : Pattern} (ha : a cs = none) (hb : b cs = none) :
    a.orElse b cs = none := by
  rw [orElse, ha]
  exact hb

theorem float_eq_none (hdigit : Stops Char.isDigit cs) (hpoint : Stops (· = '.') cs) :
    float cs = none := by
  have hdigits := digits_eq_none hdigit
  refine orElse_eq_none (seq_eq_none_of_left (orElse_eq_none ?_ ?_)) ?_
  · exact seq_eq_none_of_left hdigits
  · exact seq_eq_none_of_left (one_eq_none hpoint)
  · exact seq_eq_none_of_left hdigits

theorem imaginary_eq_none (hdigit : Stops Char.isDigit cs) (hpoint : Stops (· = '.') cs) :
    imaginary cs = none :=
  orElse_eq_none (seq_eq_none_of_left (digits_eq_none hdigit))
    (seq_eq_none_of_left (float_eq_none hdigit hpoint))

theorem radixNumeral_eq_none {letter : Char} {isDigit : Char → Bool} (h : Stops (· = '0') cs) :
    radixNumeral letter isDigit cs = none :=
  seq_eq_none_of_left (one_eq_none h)

/-! ### Numerals behind digits -/

/-- Digits begin with a digit. -/
theorem stops_of_digits {p : Char → Bool} (h : digits cs = some (word, rest))
    (hp : ∀ c, c.isDigit = true → p c = false) : Stops p cs := by
  obtain ⟨first, -, behind, hfirst, -⟩ := exists_of_seq_eq_some h
  cases cs with
  | nil => cases hfirst
  | cons c cs => exact stops_cons (hp c (Option.ite_none_right_eq_some.1 hfirst).1)

/-- Behind digits a numeral goes on with a point or an exponent. -/
theorem float_eq_none_of_digits (h : digits cs = some (word, rest)) (hpoint : Stops (· = '.') rest)
    (hexponent : Stops (fun c => c = 'e' || c = 'E') rest) : float cs = none := by
  have hfront : Stops (· = '.') cs :=
    stops_of_digits h fun c hc => decide_eq_false (ne_of_class hc rfl)
  refine orElse_eq_none (seq_eq_none_of_left (orElse_eq_none ?_ ?_)) ?_
  · exact seq_eq_none_of_right h (seq_eq_none_of_left (one_eq_none hpoint))
  · exact seq_eq_none_of_left (one_eq_none hfront)
  · exact seq_eq_none_of_right h (seq_eq_none_of_left (one_eq_none hexponent))

/-- Behind digits an imaginary numeral goes on in the same way, or with its unit. -/
theorem imaginary_eq_none_of_digits (h : digits cs = some (word, rest))
    (hfloat : float cs = none) (hunit : Stops (fun c => c = 'j' || c = 'J') rest) :
    imaginary cs = none :=
  orElse_eq_none (seq_eq_none_of_right h (one_eq_none hunit)) (seq_eq_none_of_left hfloat)

/-! ### Numerals of digits alone -/

theorem moreDigits_append (hdigits : ∀ c ∈ word, c.isDigit = true) (hrest : Ends rest) :
    moreDigits (word ++ rest) = (word, rest) := by
  induction word with
  | nil => obtain ⟨more, rfl | rfl⟩ := hrest <;> rfl
  | cons c word ih =>
    obtain ⟨hc, hword⟩ := List.forall_mem_cons.1 hdigits
    rw [List.cons_append, moreDigits]
    · rw [if_pos hc, ih hword]
    · rintro d cs rfl
      cases hc

/-- A row of digits is taken as a whole, though it may be followed by other characters of
numerals. -/
theorem digits_append (hne : word ≠ []) (hdigits : ∀ c ∈ word, c.isDigit = true)
    (hrest : Ends rest) : digits (word ++ rest) = some (word, rest) := by
  obtain ⟨first, more, rfl⟩ := List.exists_cons_of_ne_nil hne
  obtain ⟨hfirst, hmore⟩ := List.forall_mem_cons.1 hdigits
  have hone : Pattern.one Char.isDigit (first :: (more ++ rest)) = some ([first], more ++ rest) :=
    if_pos hfirst
  exact seq_eq_some hone (congrArg some (moreDigits_append hmore hrest))

/-- Digits alone are no numeral with a point or an exponent. -/
theorem float_append_eq_none (hne : word ≠ []) (hdigits : ∀ c ∈ word, c.isDigit = true)
    (hrest : Ends rest) : float (word ++ rest) = none :=
  float_eq_none_of_digits (digits_append hne hdigits hrest)
    (hrest.stops (by decide) (by decide)) (hrest.stops (by decide) (by decide))

/-- Digits alone have no letter for a radix behind a zero. -/
theorem radixNumeral_append_eq_none {letter : Char} {isDigit : Char → Bool}
    (hletter : letter.isAlpha = true) (hne : word ≠ []) (hdigits : ∀ c ∈ word, c.isDigit = true)
    (hrest : Ends rest) : radixNumeral letter isDigit (word ++ rest) = none := by
  obtain ⟨first, more, rfl⟩ := List.exists_cons_of_ne_nil hne
  obtain ⟨-, hmore⟩ := List.forall_mem_cons.1 hdigits
  have hlower {c : Char} (hc : c.isAlpha = false) : decide (c.toLower = letter) = false := by
    refine decide_eq_false fun hsame => ?_
    rw [isAlpha_of_toLower (hsame ▸ hletter)] at hc
    cases hc
  have hstop : Stops (fun c => c.toLower = letter) (more ++ rest) := by
    cases more with
    | nil => exact hrest.stops (hlower rfl) (hlower rfl)
    | cons c more =>
      have hc : c.isDigit = true := hmore c List.mem_cons_self
      exact stops_cons (hlower (not_isAlpha_of_isDigit hc))
  by_cases hzero : first = '0'
  · have hone : Pattern.one (· = '0') (first :: (more ++ rest)) = some ([first], more ++ rest) :=
      if_pos (decide_eq_true hzero)
    exact seq_eq_none_of_right hone (seq_eq_none_of_left (one_eq_none hstop))
  · exact radixNumeral_eq_none (stops_cons (decide_eq_false hzero))

end Lexeme

/-! ## Names -/

/-- A name begins with none of the characters that are not in names. -/
theorem stops_of_isIdentifier {p : Char → Bool} {word : List Char} (rest : List Char)
    (hword : isIdentifier word = true) (hp : ∀ c, startsName c = true → p c = false) :
    Stops p (word ++ rest) := by
  obtain ⟨first, more, rfl, hfirst⟩ := exists_cons_of_isIdentifier hword
  exact stops_cons (hp first hfirst)

theorem ne_nil_of_isIdentifier {word : List Char} (hword : isIdentifier word = true) :
    word ≠ [] := by
  rintro rfl
  cases hword

theorem isBlank_of_mem_replicate {n : Nat} : ∀ c ∈ List.replicate n ' ', isBlank c = true := by
  intro c hc
  rw [List.eq_of_mem_replicate hc]
  rfl

/-- A single character that begins no name. -/
theorem eq_false_of_startsName {c d : Char} (hc : startsName c = true) (hd : startsName d = false) :
    decide (c = d) = false :=
  decide_eq_false (ne_of_class hc hd)

theorem not_isBlank_of_startsName (c : Char) (h : startsName c = true) : isBlank c = false :=
  not_isBlank_of_continuesName (continuesName_of_startsName h)

namespace Mode

variable {cs word rest : List Char}

/-- At a name in a block no rule matches before the names do, if it is no directive. -/
theorem match?_name (rest : List Char) (hword : isIdentifier word = true) :
    Rule.comment.match? (word ++ rest) = none ∧ Rule.bodyMarker.match? (word ++ rest) = none ∧
      Rule.blanks.match? (word ++ rest) = none ∧ Rule.newline.match? (word ++ rest) = none := by
  have hblank := stops_of_isIdentifier rest hword not_isBlank_of_startsName
  have hne (d : Char) (hd : startsName d = false) : Stops (· = d) (word ++ rest) :=
    stops_of_isIdentifier rest hword fun c hc => eq_false_of_startsName hc hd
  refine ⟨?_, ?_, ?_, ?_⟩
  · exact Match.ofPattern_eq_none (comment_eq_none hblank (hne ';' rfl))
  · exact Match.ofPattern_eq_none (seq_eq_none_of_left (word_eq_none (hne '-' rfl)))
  · exact Match.ofPattern_eq_none (many1_of_stops hblank)
  · exact Match.ofPattern_eq_none (one_eq_none (hne '\n' rfl))

/-- Only the word `end` closes a block. -/
theorem match?_blockEnd (hword : isIdentifier word = true)
    (hend : equalsCaseless word endName = false) (hrest : Stops continuesName rest) :
    Rule.blockEnd.match? (word ++ rest) = none := by
  have hnone : endWord (word ++ rest) = none := endWord_append hword hend hrest
  rw [Rule.match?, Match.ofGroup, hnone]

/-- A name is no attribute, if no equals sign follows. -/
theorem match?_attributeName (hword : isIdentifier word = true) (hrest : Stops continuesName rest)
    (hassign : assignment rest = none) : Rule.attributeName.match? (word ++ rest) = none := by
  simp only [Rule.match?, Match.ofGroup, Pattern.nothing, name_append hword hrest, hassign]

/-! ## Between blocks -/

theorem select_default_blanks {n : Nat} (hn : n ≠ 0)
    (hdirective : directive (List.replicate n ' ' ++ cs) = none) (hblank : Stops isBlank cs)
    (hremark : Stops (· = ';') cs) :
    Mode.default.select (List.replicate n ' ' ++ cs) =
      some (.blanks, { lexeme := List.replicate n ' ' }) := by
  have hne : List.replicate n ' ' ≠ [] := by simpa using hn
  refine select_of_split [.directive, .comment] rfl ?_ ?_ hne
  · simp only [List.forall_mem_cons]
    exact ⟨Match.ofPattern_eq_none hdirective,
      Match.ofPattern_eq_none (comment_append n hblank hremark), by simp⟩
  · exact Match.ofPattern_eq_some (many1_append isBlank_of_mem_replicate hne hblank)

theorem select_default_className (hword : isClassIdentifier word = true)
    (hend : equalsCaseless word endName = false) (hrest : Stops continuesName rest)
    (hdirective : directive (word ++ rest) = none) :
    Mode.default.select (word ++ rest) = some (.className, { lexeme := word }) := by
  have hname := isIdentifier_of_isClassIdentifier hword
  obtain ⟨hcomment, -, hblanks, hnewline⟩ := match?_name rest hname
  refine select_of_split [.directive, .comment, .blanks, .newline, .strayEnd] rfl ?_ ?_ ?_
  · simp only [List.forall_mem_cons]
    exact ⟨Match.ofPattern_eq_none hdirective, hcomment, hblanks, hnewline,
      Match.ofPattern_eq_none (endWord_append hname hend hrest), by simp⟩
  · exact Match.ofPattern_eq_some (className_append hword hrest)
  · exact ne_nil_of_isIdentifier hname

theorem select_default_newline (rest : List Char) :
    Mode.default.select ('\n' :: rest) = some (.newline, { lexeme := ['\n'] }) := rfl

/-! ## In a block -/

theorem select_block_blanks {n : Nat} (hn : n ≠ 0)
    (hdirective : directive (List.replicate n ' ' ++ cs) = none) (hblank : Stops isBlank cs)
    (hremark : Stops (· = ';') cs) :
    Mode.block.select (List.replicate n ' ' ++ cs) =
      some (.blanks, { lexeme := List.replicate n ' ' }) := by
  have hne : List.replicate n ' ' ≠ [] := by simpa using hn
  -- The first blank is enough to keep the rules for words away.
  have hend : Rule.blockEnd.match? (List.replicate n ' ' ++ cs) = none := by
    obtain ⟨k, rfl⟩ := Nat.exists_eq_succ_of_ne_zero hn
    rfl
  have hname : Rule.attributeName.match? (List.replicate n ' ' ++ cs) = none := by
    obtain ⟨k, rfl⟩ := Nat.exists_eq_succ_of_ne_zero hn
    rfl
  have hmarker : Rule.bodyMarker.match? (List.replicate n ' ' ++ cs) = none := by
    obtain ⟨k, rfl⟩ := Nat.exists_eq_succ_of_ne_zero hn
    rfl
  refine select_of_split [.directive, .comment, .blockEnd, .attributeName, .bodyMarker]
    rfl ?_ ?_ hne
  · simp only [List.forall_mem_cons]
    exact ⟨Match.ofPattern_eq_none hdirective,
      Match.ofPattern_eq_none (comment_append n hblank hremark), hend, hname, hmarker, by simp⟩
  · exact Match.ofPattern_eq_some (many1_append isBlank_of_mem_replicate hne hblank)

theorem select_block_attributeName {after : List Char} (hword : isIdentifier word = true)
    (hend : equalsCaseless word endName = false) (hrest : Stops continuesName (after ++ rest))
    (hdirective : directive (word ++ (after ++ rest)) = none)
    (hassign : assignment (after ++ rest) = some (after, rest)) :
    Mode.block.select (word ++ (after ++ rest)) =
      some (.attributeName, { lexeme := word ++ after, group := some ([], word) }) := by
  obtain ⟨hcomment, -, -, -⟩ := match?_name (after ++ rest) hword
  refine select_of_split [.directive, .comment, .blockEnd] rfl ?_ ?_ ?_
  · simp only [List.forall_mem_cons]
    exact ⟨Match.ofPattern_eq_none hdirective, hcomment, match?_blockEnd hword hend hrest, by simp⟩
  · simp only [Rule.match?, Match.ofGroup, Pattern.nothing, name_append hword hrest, hassign,
      List.nil_append]
  · exact List.append_ne_nil_of_left_ne_nil (ne_nil_of_isIdentifier hword) after

/-- At a name in a block that is neither a directive nor an attribute nor `end`, the rules
for names are the first to match. -/
theorem match?_blockName (hword : isIdentifier word = true)
    (hend : equalsCaseless word endName = false) (hrest : Stops continuesName rest)
    (hdirective : directive (word ++ rest) = none) (hassign : assignment rest = none) :
    ∀ rule ∈ [Rule.directive, .comment, .blockEnd, .attributeName, .bodyMarker, .blanks],
      rule.match? (word ++ rest) = none := by
  obtain ⟨hcomment, hmarker, hblanks, -⟩ := match?_name rest hword
  simp only [List.forall_mem_cons]
  exact ⟨Match.ofPattern_eq_none hdirective, hcomment, match?_blockEnd hword hend hrest,
    match?_attributeName hword hrest hassign, hmarker, hblanks, by simp⟩

theorem select_block_className (hword : isClassIdentifier word = true)
    (hend : equalsCaseless word endName = false) (hrest : Stops continuesName rest)
    (hdirective : directive (word ++ rest) = none) (hassign : assignment rest = none) :
    Mode.block.select (word ++ rest) = some (.className, { lexeme := word }) := by
  have hname := isIdentifier_of_isClassIdentifier hword
  have hbefore := match?_blockName hname hend hrest hdirective hassign
  refine select_of_split _ rfl hbefore ?_ (ne_nil_of_isIdentifier hname)
  exact Match.ofPattern_eq_some (className_append hword hrest)

/-- A name without a capital at its beginning is not the name of a class. -/
theorem className_eq_none (rest : List Char) (hword : isIdentifier word = true)
    (hclass : isClassIdentifier word = false) : className (word ++ rest) = none := by
  obtain ⟨first, more, rfl, -⟩ := exists_cons_of_isIdentifier hword
  simp only [isIdentifier, Bool.and_eq_true] at hword
  rw [isClassIdentifier, hword.2, Bool.and_true] at hclass
  exact seq_eq_none_of_left (one_eq_none (stops_cons hclass))

theorem select_block_instanceName (hword : isIdentifier word = true)
    (hclass : isClassIdentifier word = false) (hend : equalsCaseless word endName = false)
    (hrest : Stops continuesName rest) (hdirective : directive (word ++ rest) = none)
    (hassign : assignment rest = none) :
    Mode.block.select (word ++ rest) = some (.instanceName, { lexeme := word }) := by
  have hbefore := match?_blockName hword hend hrest hdirective hassign
  refine select_of_split
    ([.directive, .comment, .blockEnd, .attributeName, .bodyMarker, .blanks] ++ [.className])
    rfl ?_ ?_ (ne_nil_of_isIdentifier hword)
  · intro rule hrule
    rcases List.mem_append.1 hrule with hmem | hmem
    · exact hbefore rule hmem
    · rw [List.mem_singleton.1 hmem]
      exact Match.ofPattern_eq_none (className_eq_none rest hword hclass)
  · exact Match.ofPattern_eq_some (name_append hword hrest)

theorem select_block_blockEnd (rest : List Char) :
    Mode.block.select (endName ++ '\n' :: rest) =
      some (.blockEnd, { lexeme := endName, group := some (endName, []) }) := rfl

theorem select_block_newline (rest : List Char) :
    Mode.block.select ('\n' :: rest) = some (.headerNewline, { lexeme := ['\n'] }) := rfl

/-! ## In an expression -/

theorem select_expression_blanks (cs : List Char) {c : Char} (hblank : isBlank c = false)
    (hremark : c ≠ ';') :
    Mode.expression.select (' ' :: c :: cs) = some (.blanks, { lexeme := [' '] }) := by
  have hcomment : comment (List.replicate 1 ' ' ++ c :: cs) = none :=
    comment_append 1 (stops_cons hblank) (stops_cons (decide_eq_false hremark))
  refine select_of_split
    [.comment, .continuation, .openString .tripleSingle, .openString .tripleDouble,
      .openString .single, .openString .double, .imaginary, .float, .hex, .octal, .binary,
      .integer, .identifier, .bracket, .expressionNewline] rfl ?_ ?_ (List.cons_ne_nil ' ' [])
  · simp only [List.forall_mem_cons]
    exact ⟨Match.ofPattern_eq_none hcomment, rfl, rfl, rfl, rfl, rfl, rfl, rfl, rfl, rfl, rfl,
      rfl, rfl, rfl, rfl, by simp⟩
  · have hblanks : many1 isBlank (List.replicate 1 ' ' ++ c :: cs) = some ([' '], c :: cs) :=
      many1_append isBlank_of_mem_replicate (List.cons_ne_nil ' ' []) (stops_cons hblank)
    exact Match.ofPattern_eq_some hblanks

theorem select_expression_newline (rest : List Char) :
    Mode.expression.select ('\n' :: rest) = some (.expressionNewline, { lexeme := ['\n'] }) := rfl

theorem select_expression_operator {sign : Char} (hsign : isOperator sign = true)
    (hrest : Ends rest) :
    Mode.expression.select (sign :: rest) = some (.operator, { lexeme := [sign] }) := by
  simp only [isOperator, List.contains_iff_mem, List.mem_cons, List.not_mem_nil, or_false] at hsign
  obtain ⟨more, rfl | rfl⟩ := hrest <;>
    rcases hsign with rfl | rfl | rfl | rfl | rfl | rfl | rfl | rfl | rfl | rfl <;> rfl

theorem select_expression_opening (bracket : Bracket) (rest : List Char) :
    Mode.expression.select (bracket.openingChar :: rest) =
      some (.bracket, { lexeme := [bracket.openingChar] }) := by
  cases bracket <;> rfl

theorem select_expression_closing (bracket : Bracket) (rest : List Char) :
    Mode.expression.select (bracket.closingChar :: rest) =
      some (.bracket, { lexeme := [bracket.closingChar] }) := by
  cases bracket <;> rfl

/-- Quotes behind a letter open a string, so a word must not go on with quotes. -/
theorem match?_openString {first : Char} (style : QuoteStyle) (hfirst : first ≠ style.mark)
    (hrest : Stops (· = style.mark) rest) :
    (Rule.openString style).match? (first :: rest) = none := by
  by_cases halpha : first.isAlpha = true
  · have hletter : (Pattern.one Char.isAlpha).optional (first :: rest) = some ([first], rest) := by
      simp only [Pattern.optional, orElse, Pattern.one, halpha, if_true]
    have hquotes : Pattern.word style.quotes rest = none := word_quotes_eq_none style hrest
    simp only [Rule.match?, Match.ofGroup, Pattern.nothing, hletter, hquotes]
  · have hletter : (Pattern.one Char.isAlpha).optional (first :: rest) =
        some ([], first :: rest) := by
      simp only [Pattern.optional, orElse, Pattern.one, halpha, Bool.false_eq_true, if_false,
        Pattern.nothing]
    have hquotes : Pattern.word style.quotes (first :: rest) = none :=
      word_quotes_eq_none style (stops_cons (decide_eq_false hfirst))
    simp only [Rule.match?, Match.ofGroup, Pattern.nothing, hletter, hquotes]

/-- A word without quotes, whatever its first letter is, opens no string. -/
theorem match?_openString_append (style : QuoteStyle) (hne : word ≠ [])
    (hmark : ∀ c ∈ word, c ≠ style.mark) (hrest : Ends rest) :
    (Rule.openString style).match? (word ++ rest) = none := by
  obtain ⟨first, more, rfl⟩ := List.exists_cons_of_ne_nil hne
  obtain ⟨hfirst, hmore⟩ := List.forall_mem_cons.1 hmark
  refine match?_openString style hfirst ?_
  cases more with
  | nil => exact hrest.stops (by cases style <;> rfl) (by cases style <;> rfl)
  | cons c more => exact stops_cons (decide_eq_false (hmore c List.mem_cons_self))

theorem select_expression_identifier (hword : isIdentifier word = true) (hrest : Ends rest) :
    Mode.expression.select (word ++ rest) = some (.identifier, { lexeme := word }) := by
  have hname (p : Char → Bool) (hp : ∀ c, startsName c = true → p c = false) :
      Stops p (word ++ rest) := stops_of_isIdentifier rest hword hp
  have hne (d : Char) (hd : startsName d = false) : Stops (· = d) (word ++ rest) :=
    hname _ fun c hc => eq_false_of_startsName hc hd
  have hdigit : Stops Char.isDigit (word ++ rest) :=
    hname _ fun c hc => not_isDigit_of_startsName hc
  have hcomment : comment (word ++ rest) = none :=
    comment_eq_none (hname _ not_isBlank_of_startsName) (hne ';' rfl)
  have hstring (style : QuoteStyle) : (Rule.openString style).match? (word ++ rest) = none := by
    have hmark : continuesName style.mark = false := by cases style <;> rfl
    refine match?_openString_append style (ne_nil_of_isIdentifier hword) (fun c hc => ?_) hrest
    exact ne_of_class (continuesName_of_isIdentifier hword c hc) hmark
  refine select_of_split
    [.comment, .continuation, .openString .tripleSingle, .openString .tripleDouble,
      .openString .single, .openString .double, .imaginary, .float, .hex, .octal, .binary,
      .integer] rfl ?_ ?_ (ne_nil_of_isIdentifier hword)
  · simp only [List.forall_mem_cons]
    refine ⟨Match.ofPattern_eq_none hcomment, ?_, hstring _, hstring _, hstring _, hstring _,
      ?_, ?_, ?_, ?_, ?_, ?_, by simp⟩
    · exact Match.ofPattern_eq_none (word_eq_none (hne '\\' rfl))
    · exact Match.ofPattern_eq_none (imaginary_eq_none hdigit (hne '.' rfl))
    · exact Match.ofPattern_eq_none (float_eq_none hdigit (hne '.' rfl))
    · exact Match.ofPattern_eq_none (radixNumeral_eq_none (hne '0' (by decide)))
    · exact Match.ofPattern_eq_none (radixNumeral_eq_none (hne '0' (by decide)))
    · exact Match.ofPattern_eq_none (radixNumeral_eq_none (hne '0' (by decide)))
    · exact Match.ofPattern_eq_none (many1_of_stops hdigit)
  · exact Match.ofPattern_eq_some
      (name_append hword (hrest.stops (by decide) (by decide)))

theorem select_expression_integer (hne : word ≠ []) (hdigits : ∀ c ∈ word, c.isDigit = true)
    (hrest : Ends rest) :
    Mode.expression.select (word ++ rest) = some (.integer, { lexeme := word }) := by
  have hhead (p : Char → Bool) (hp : ∀ c, c.isDigit = true → p c = false) :
      Stops p (word ++ rest) := by
    obtain ⟨first, more, rfl⟩ := List.exists_cons_of_ne_nil hne
    exact stops_cons (hp first (hdigits first List.mem_cons_self))
  have hnot (d : Char) (hd : d.isDigit = false) : Stops (· = d) (word ++ rest) :=
    hhead _ fun c hc => decide_eq_false (ne_of_class hc hd)
  have hcomment : comment (word ++ rest) = none := by
    refine comment_eq_none (hhead _ fun c hc => ?_) (hnot ';' rfl)
    exact not_isBlank_of_continuesName (continuesName_of_isDigit hc)
  have hstring (style : QuoteStyle) : (Rule.openString style).match? (word ++ rest) = none := by
    have hmark : style.mark.isDigit = false := by cases style <;> rfl
    refine match?_openString_append style hne (fun c hc => ?_) hrest
    exact ne_of_class (hdigits c hc) hmark
  have hfloat := float_append_eq_none hne hdigits hrest
  have himaginary : imaginary (word ++ rest) = none :=
    imaginary_eq_none_of_digits (digits_append hne hdigits hrest) hfloat
      (hrest.stops (by decide) (by decide))
  have hradix (letter : Char) (isDigit : Char → Bool) (hletter : letter.isAlpha = true) :
      radixNumeral letter isDigit (word ++ rest) = none :=
    radixNumeral_append_eq_none hletter hne hdigits hrest
  refine select_of_split
    [.comment, .continuation, .openString .tripleSingle, .openString .tripleDouble,
      .openString .single, .openString .double, .imaginary, .float, .hex, .octal, .binary]
    rfl ?_ ?_ hne
  · simp only [List.forall_mem_cons]
    refine ⟨Match.ofPattern_eq_none hcomment, ?_, hstring _, hstring _, hstring _, hstring _,
      Match.ofPattern_eq_none himaginary, Match.ofPattern_eq_none hfloat, ?_, ?_, ?_, by simp⟩
    · exact Match.ofPattern_eq_none (word_eq_none (hnot '\\' rfl))
    · exact Match.ofPattern_eq_none (hradix 'x' _ rfl)
    · exact Match.ofPattern_eq_none (hradix 'o' _ rfl)
    · exact Match.ofPattern_eq_none (hradix 'b' _ rfl)
  · exact Match.ofPattern_eq_some
      (many1_append hdigits hne (hrest.stops (by decide) (by decide)))

end Mode

end BlockLexer
