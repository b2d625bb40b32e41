import BlockLexer.Proofs.Cursor
import Mathlib.Data.List.Nodup

/-!
# What the characters of a piece are

A piece is made of characters that its rule has matched.  This module says which of them it
is made of, and what they have to do with its value.

* `Spelled` is what the characters of a piece look like, by its kind.
* `Mode.take?_eq_none_of_select`: the rules in front of the one that is selected take
  nothing.  So the quotes of a string are never the beginning of three.
* `Scan.Cuts` says which characters they are, `Scan.exists_cuts_of_act` is one action, and
  `Scan.exists_cuts_of_step` one step.
-/

namespace BlockLexer

open Text Pattern

/-! ## Quotes -/

/-- The letter in front of the quotes of a string, or nothing. -/
def IsLetter (letter : List Char) : Prop :=
  letter = [] ∨ ∃ c, c.isAlpha = true ∧ letter = [c]

theorem IsLetter.lineFeed_not_mem {letter : List Char} (h : IsLetter letter) : '\n' ∉ letter := by
  rcases h with rfl | ⟨c, hc, rfl⟩
  · simp
  · rw [List.mem_singleton]
    rintro rfl
    cases hc

/-- Whether a string is written with three quotes on each side. -/
def isTripleQuoted (lexeme : List Char) : Bool :=
  QuoteStyle.tripleSingle.quotes.isPrefixOf (lexeme.dropWhile Char.isAlpha) ||
    QuoteStyle.tripleDouble.quotes.isPrefixOf (lexeme.dropWhile Char.isAlpha)

theorem QuoteStyle.not_isAlpha_mark (style : QuoteStyle) : style.mark.isAlpha = false := by
  cases style <;> decide

theorem QuoteStyle.count_quotes (style : QuoteStyle) : style.quotes.count '\n' = 0 := by
  cases style <;> rfl

theorem QuoteStyle.exists_quotes_eq_cons (style : QuoteStyle) :
    ∃ more, style.quotes = style.mark :: more := by
  cases style <;> exact ⟨_, rfl⟩

/-- The quotes stand behind the letter. -/
theorem dropWhile_letter {style : QuoteStyle} {letter : List Char} (hletter : IsLetter letter)
    (left : List Char) :
    (letter ++ (style.quotes ++ left)).dropWhile Char.isAlpha = style.quotes ++ left := by
  obtain ⟨more, hmore⟩ := style.exists_quotes_eq_cons
  have hmark := style.not_isAlpha_mark
  rw [hmore, List.cons_append]
  rcases hletter with rfl | ⟨c, hc, rfl⟩
  · rw [List.nil_append, List.dropWhile_cons_of_neg (by simp [hmark])]
  · rw [List.singleton_append, List.dropWhile_cons_of_pos hc,
      List.dropWhile_cons_of_neg (by simp [hmark])]

/-- A string is written with three quotes if its style says so, unless two more quotes follow
a single one. -/
theorem isTripleQuoted_append {style : QuoteStyle} {letter left : List Char}
    (hletter : IsLetter letter)
    (hsingle : style.isTriple = false → ¬ [style.mark, style.mark] <+: left) :
    isTripleQuoted (letter ++ (style.quotes ++ left)) = style.isTriple := by
  unfold isTripleQuoted
  rw [dropWhile_letter hletter]
  cases style with
  | tripleSingle | tripleDouble => rfl
  | single | double =>
    have hno := hsingle rfl
    rw [← List.isPrefixOf_iff_prefix, Bool.not_eq_true] at hno
    simpa [QuoteStyle.quotes, QuoteStyle.isTriple, QuoteStyle.mark, List.replicate,
      List.isPrefixOf] using hno

/-- A letter and quotes open a string. -/
theorem match?_openString_quotes (style : QuoteStyle) {letter : List Char}
    (hletter : IsLetter letter) (left : List Char) :
    (Rule.openString style).match? (letter ++ (style.quotes ++ left)) =
      some { lexeme := letter ++ style.quotes, group := some ([], letter) } := by
  have hword : word style.quotes (style.quotes ++ left) = some (style.quotes, left) := by
    unfold word
    rw [List.take_left, List.drop_left, if_pos rfl]
  obtain ⟨more, hmore⟩ := style.exists_quotes_eq_cons
  have hmark := style.not_isAlpha_mark
  have hgroup : Pattern.optional (one Char.isAlpha) (letter ++ (style.quotes ++ left)) =
      some (letter, style.quotes ++ left) := by
    rcases hletter with rfl | ⟨c, hc, rfl⟩
    · rw [hmore]
      simp [Pattern.optional, Pattern.orElse, one, nothing, hmark]
    · simp [Pattern.optional, Pattern.orElse, one, hc]
  simp only [Rule.match?, Match.ofGroup, nothing, hgroup, hword, List.nil_append]

/-- What opens a string is a letter, which is set apart, and quotes. -/
theorem exists_letter_of_match? {style : QuoteStyle} {cs : List Char} {m : Match}
    (h : (Rule.openString style).match? cs = some m) :
    ∃ letter, IsLetter letter ∧
      m = { lexeme := letter ++ style.quotes, group := some ([], letter) } := by
  rw [Rule.match?] at h
  obtain ⟨x, letter, quotes, cs₁, cs', left, hnothing, hgroup, hword, rfl⟩ :=
    Match.exists_of_ofGroup h
  obtain ⟨rfl, rfl⟩ := Prod.mk.inj (Option.some.inj hnothing)
  obtain ⟨htake, hword⟩ := Option.ite_none_right_eq_some.1 hword
  obtain ⟨rfl, -⟩ := Prod.mk.inj (Option.some.inj hword)
  refine ⟨letter, ?_, ?_⟩
  · rcases or_of_optional_eq_some hgroup with hone | ⟨rfl, -⟩
    · obtain ⟨c, hc, rfl, -⟩ := exists_of_one_eq_some hone
      exact .inr ⟨c, hc, rfl⟩
    · exact .inl rfl
  · rw [htake, List.nil_append]

/-! ## Rules in front of the one that is selected -/

/-- A rule takes something as itself. -/
theorem Rule.eq_of_take? {cs : List Char} {rule other : Rule} {m : Match}
    (h : Rule.take? cs other = some (rule, m)) : rule = other := by
  unfold Rule.take? at h
  split at h
  · cases h
  · exact (Prod.mk.inj (Option.some.inj (Option.ite_none_left_eq_some.1 h).2)).1.symm

/-- The rule that is selected for a text is selected for another one as well, if it takes something
there, and if the rules that take nothing still take nothing. -/
theorem Mode.select_of_take? {mode : Mode} {cs cs' : List Char} {rule : Rule} {m m' : Match}
    (h : mode.select cs = some (rule, m))
    (htake : Rule.take? cs rule = some (rule, m) → Rule.take? cs' rule = some (rule, m'))
    (hnone : ∀ other, Rule.take? cs other = none → Rule.take? cs' other = none) :
    mode.select cs' = some (rule, m') := by
  obtain ⟨before, first, after, hrules, hfirst, hbefore⟩ := List.findSome?_eq_some_iff.1 h
  obtain rfl := Rule.eq_of_take? hfirst
  exact List.findSome?_eq_some_iff.2 ⟨before, rule, after, hrules, htake hfirst,
    fun other hother => hnone other (hbefore other hother)⟩

theorem Rule.take?_eq_none_of_findSome? {cs : List Char} {rules : List Rule} {rule other : Rule}
    {m : Match} (h : rules.findSome? (Rule.take? cs) = some (rule, m))
    (hbefore : [other, rule].Sublist rules) (hnodup : rules.Nodup) :
    Rule.take? cs other = none := by
  induction rules with
  | nil => cases hbefore
  | cons first rules ih =>
    obtain ⟨hfirst, hnodup⟩ := List.nodup_cons.1 hnodup
    rw [List.findSome?_cons] at h
    cases hbefore with
    | cons _ hbefore =>
      split at h
      · next hit =>
        -- The first of the rules would stand in the table a second time.
        obtain rfl := Rule.eq_of_take? (hit.trans h)
        exact absurd (hbefore.subset (by simp)) hfirst
      · exact ih h hbefore hnodup
    | cons_cons _ hbefore =>
      split at h
      · next hit =>
        obtain rfl := Rule.eq_of_take? (hit.trans h)
        exact absurd (hbefore.subset (by simp)) hfirst
      · next hnone => exact hnone

/-- The rules in front of the one that is selected take nothing. -/
theorem Mode.take?_eq_none_of_select {mode : Mode} {cs : List Char} {rule other : Rule} {m : Match}
    (h : mode.select cs = some (rule, m)) (hbefore : [other, rule].Sublist mode.rules)
    (hnodup : mode.rules.Nodup) : Rule.take? cs other = none :=
  Rule.take?_eq_none_of_findSome? h hbefore hnodup

/-- No more quotes stand behind a single one that opens a string. -/
theorem not_prefix_of_select {style : QuoteStyle} {letter left : List Char} {m : Match}
    (hletter : IsLetter letter)
    (h : Mode.expression.select (letter ++ (style.quotes ++ left)) = some (.openString style, m))
    (hsingle : style.isTriple = false) : ¬ [style.mark, style.mark] <+: left := by
  rintro ⟨more, rfl⟩
  -- Otherwise the rule for three quotes would have been selected.
  obtain ⟨triple, hbefore, hquotes⟩ : ∃ triple : QuoteStyle,
      [Rule.openString triple, .openString style].Sublist Mode.expression.rules ∧
        style.quotes ++ ([style.mark, style.mark] ++ more) = triple.quotes ++ more := by
    cases style with
    | single => exact ⟨.tripleSingle, by decide, rfl⟩
    | double => exact ⟨.tripleDouble, by decide, rfl⟩
    | tripleSingle | tripleDouble => cases hsingle
  have hnone := Mode.take?_eq_none_of_select h hbefore (by decide)
  obtain ⟨tail, htail⟩ := triple.exists_quotes_eq_cons
  rw [hquotes, Rule.take?, match?_openString_quotes triple hletter more] at hnone
  simp [htail] at hnone

/-- The rules of an expression for its numerals, names, operators and blanks. -/
def Rule.inert : List Rule :=
  [.imaginary, .float, .hex, .octal, .binary, .integer, .identifier, .blanks, .operator]

/-! ## Spelling -/

/-- What the characters of a piece look like, by the mode that they stand in and by what
follows them. -/
def Spelled (mode : Mode) (piece : Piece) (lexeme left : List Char) : Prop :=
  match piece.kind with
  | .token .className | .token .instanceName | .token .attributeName | .token .identifier =>
    piece.value = .text lexeme
  | .token .blockEnd => equalsCaseless lexeme ['e', 'n', 'd'] = true
  | .token .endOfText => lexeme = [] ∧ left = []
  -- A string is not yielded as a whole.
  | .token .string => False
  | .stringStart style _ =>
    ∃ letter, IsLetter letter ∧ lexeme = letter ++ style.quotes ∧
      (style.isTriple = false → ¬ [style.mark, style.mark] <+: left)
  | .stringEnd => ∃ style, mode = .string style ∧ lexeme = style.quotes
  | _ => True

namespace Scan

variable {table : LineTable} {s a t : Scan} {piece : Piece} {rule : Rule} {m : Match}
  {left : List Char}

/-- A piece takes these characters at the place of a scan, and behind them more, which it
counts for nothing. -/
structure Cuts (s : Scan) (piece : Piece) (lexeme more left : List Char) : Prop where
  rest : s.rest = lexeme ++ (more ++ left)
  span : piece.span = (s.piece piece.kind piece.value lexeme).span
  spelled : Spelled s.mode piece lexeme (more ++ left)
  string : (∀ kind, piece.kind ≠ .token kind) → more = []

/-- A piece that takes a match as a whole. -/
theorem Cuts.whole {kind : PieceKind} {value : Value} (hrest : s.rest = m.lexeme ++ left)
    (hspelled : Spelled s.mode (s.piece kind value m.lexeme) m.lexeme left) :
    s.Cuts (s.piece kind value m.lexeme) m.lexeme [] left :=
  ⟨hrest, rfl, hspelled, fun _ => rfl⟩

/-- A match of the word `end` begins with the word. -/
theorem endName_of_match? (h : Rule.blockEnd.match? s.rest = some m) :
    equalsCaseless (m.lexeme.take 3) ['e', 'n', 'd'] = true := by
  rw [Rule.match?] at h
  obtain ⟨word, y, z, cs', cs'', left', hend, -, -, rfl⟩ := Match.exists_of_ofGroup h
  obtain ⟨x, cut, between, hx, hcut, rfl⟩ := exists_of_seq_eq_some hend
  obtain ⟨hcaseless, hx⟩ := Option.ite_none_right_eq_some.1 hx
  obtain ⟨rfl, -⟩ := Prod.mk.inj (Option.some.inj hx)
  have hlength : (s.rest.take 3).length = 3 := by
    unfold equalsCaseless at hcaseless
    simpa using congrArg List.length (of_decide_eq_true hcaseless)
  show equalsCaseless ((s.rest.take 3 ++ cut ++ y ++ z).take 3) _ = true
  rw [List.append_assoc, List.append_assoc, List.take_append_of_le_length (by omega),
    List.take_of_length_le (by omega)]
  exact hcaseless

/-- A match of an attribute begins with the name. -/
theorem exists_append_of_attributeName (h : Rule.attributeName.match? s.rest = some m) :
    ∃ sign, m.lexeme = m.groupText ++ sign := by
  rw [Rule.match?] at h
  obtain ⟨x, name, sign, cs', cs'', left', hx, -, -, rfl⟩ := Match.exists_of_ofGroup h
  obtain ⟨rfl, -⟩ := Prod.mk.inj (Option.some.inj hx)
  exact ⟨sign, rfl⟩

/-- A match that opens a string is a letter and the quotes, and not too few of these. -/
theorem exists_letter_of_select {style : QuoteStyle}
    (hselect : Mode.expression.select s.rest = some (.openString style, m))
    (hrest : s.rest = m.lexeme ++ left) :
    ∃ letter, IsLetter letter ∧ m.lexeme = letter ++ style.quotes ∧
      (style.isTriple = false → ¬ [style.mark, style.mark] <+: left) := by
  obtain ⟨letter, hletter, hmatch⟩ := exists_letter_of_match? (Mode.match?_of_select hselect)
  have hlexeme : m.lexeme = letter ++ style.quotes := congrArg Match.lexeme hmatch
  refine ⟨letter, hletter, hlexeme, ?_⟩
  rw [hrest, hlexeme, List.append_assoc] at hselect
  exact not_prefix_of_select hletter hselect

/-- The kinds of which nothing is said. -/
theorem spelled_of_category {kind : Kind} {value : Value} {mode : Mode} {span : Span}
    {lexeme : List Char} (hkind : kind.category = .expression) :
    Spelled mode { kind := .token kind, value, span } lexeme left := by
  cases kind <;> trivial

theorem spelled_of_isPart {mode : Mode} {lexeme : List Char} (h : piece.kind.IsPart) :
    Spelled mode piece lexeme left := by
  unfold Spelled
  cases hkind : piece.kind with
  | stringText | stringEscape | stringLineBreak => trivial
  | token | stringStart | stringEnd =>
    rw [hkind] at h
    cases h

theorem category_operatorKind (sign : List Char) : (operatorKind sign).category = .expression := by
  unfold operatorKind
  split <;> rfl

/-- The actions of these rules change nothing, and what they yield is a token. -/
theorem inert_of_act {piece? : Option Piece} (hrule : rule ∈ Rule.inert)
    (h : s.act table rule m = (a, .ok piece?)) :
    a = s ∧ ∀ piece ∈ piece?, ∃ kind, piece.kind = .token kind := by
  cases accepts_of_act h with
  | blanks | operator | imaginary | float | hex | octal | binary | integer | trueWord | falseWord
  | noneWord | identifier =>
    refine ⟨rfl, ?_⟩
    rintro piece ⟨⟩
    exact ⟨_, rfl⟩
  | _ => simp [Rule.inert] at hrule

/-- A match in an expression that neither opens a string nor ends the line yields a token or
nothing, and leaves as much open as before. -/
theorem still_of_act {piece? : Option Piece} (hmem : rule ∈ Mode.expression.rules)
    (h : s.act table rule m = (a, .ok piece?)) (hstring : ∀ style, rule ≠ .openString style)
    (hfeed : rule ≠ .expressionNewline) :
    a.modes.length = s.modes.length ∧ ∀ piece ∈ piece?, ∃ kind, piece.kind = .token kind := by
  by_cases hinert : rule ∈ Rule.inert
  · obtain ⟨rfl, htoken⟩ := inert_of_act hinert h
    exact ⟨rfl, htoken⟩
  cases accepts_of_act h with
  | openString => exact absurd rfl (hstring _)
  | lastNewline | expressionNewline => exact absurd rfl hfeed
  | comment | continuation => exact ⟨rfl, by simp⟩
  | bracket hopen =>
    refine ⟨by rw [hopen]; rfl, ?_⟩
    rintro piece ⟨⟩
    exact ⟨_, rfl⟩
  | _ => first | exact absurd (by decide) hinert | simp [Mode.rules] at hmem

/-- No other rule yields the beginning of a string. -/
theorem eq_openString_of_act {style : QuoteStyle} {raw : Bool} (hmem : rule ∈ Mode.expression.rules)
    (h : s.act table rule m = (a, .ok (some piece))) (hkind : piece.kind = .stringStart style raw) :
    rule = .openString style := by
  cases accepts_of_act h with
  | openString =>
    cases hkind
    rfl
  | escape => simp [Mode.rules] at hmem
  | _ => cases hkind

/-- The characters of the piece that an action yields, if it is no body. -/
theorem exists_cuts_of_act (hselect : s.mode.select s.rest = some (rule, m))
    (hrest : s.rest = m.lexeme ++ left) (hact : s.act table rule m = (a, .ok (some piece)))
    (hbody : piece.kind ≠ .token .body) :
    ∃ lexeme more, m.lexeme = lexeme ++ more ∧ s.Cuts piece lexeme more left := by
  have hmatch := Mode.match?_of_select hselect
  have hmem := mem_rules_of_select hselect
  have whole {kind : PieceKind} {value : Value}
      (h : Spelled s.mode (s.piece kind value m.lexeme) m.lexeme left) :
      ∃ lexeme more, m.lexeme = lexeme ++ more ∧
        s.Cuts (s.piece kind value m.lexeme) lexeme more left :=
    ⟨m.lexeme, [], (List.append_nil _).symm, .whole hrest h⟩
  cases accepts_of_act hact with
  | blanks | newline | headerNewline | memberNewline | lastNewline | expressionNewline | imaginary
  | float | hex | octal | binary | integer | trueWord | falseWord | noneWord | stringText
  | loneQuote => exact whole trivial
  | className | capitalName | instanceName | identifier => exact whole rfl
  | operator => exact whole (spelled_of_category (category_operatorKind m.lexeme))
  | bracket _ htake => exact whole (spelled_of_category (Brackets.turns_of_take? htake).category)
  | escape => exact whole (spelled_of_isPart (isPart_escaped m s))
  | blockEnd =>
    -- The word alone is taken.
    refine ⟨m.lexeme.take 3, m.lexeme.drop 3, (List.take_append_drop 3 m.lexeme).symm, ?_, rfl,
      endName_of_match? hmatch, fun hnot => absurd rfl (hnot _)⟩
    rw [← List.append_assoc, List.take_append_drop]
    exact hrest
  | attributeName =>
    -- The name alone is taken.
    obtain ⟨sign, hlexeme⟩ := exists_append_of_attributeName hmatch
    refine ⟨m.groupText, sign, hlexeme, ?_, rfl, rfl, fun hnot => absurd rfl (hnot _)⟩
    rw [← List.append_assoc, ← hlexeme]
    exact hrest
  | lastBodyLine => exact absurd rfl hbody
  | openString =>
    rw [Mode.eq_of_mem_rules hmem rfl] at hselect
    exact whole (exists_letter_of_select hselect hrest)
  | closeString =>
    exact whole ⟨_, Mode.eq_of_mem_rules hmem rfl, Match.lexeme_eq_of_word hmatch⟩

/-- The characters of the piece that a step yields, if it is no body. -/
theorem exists_cuts_of_step (hstep : s.step table = (t, some (.ok piece)))
    (hbody : piece.kind ≠ .token .body) :
    ∃ lexeme more, s.Cuts piece lexeme more t.rest ∧
      t.position = s.position.after (lexeme ++ more) := by
  rcases exists_of_step (some piece) hstep with ⟨hrest, rfl, hfinish⟩ | ⟨rule, m, a, left, hselect,
    hrest, hact, -, rfl, hposition⟩
  · obtain ⟨-, rfl⟩ := eq_of_finish (Option.some.inj hfinish).symm
    exact ⟨[], [], ⟨rfl, rfl, ⟨rfl, hrest⟩, fun _ => rfl⟩, rfl⟩
  · let event := Event.ruleMatched rule s.mode s.position.line s.position.column
    obtain ⟨lexeme, more, hlexeme, hcuts⟩ :=
      exists_cuts_of_act (s := s.report event) hselect hrest hact hbody
    refine ⟨lexeme, more, ⟨hcuts.rest, hcuts.span, hcuts.spelled, hcuts.string⟩, ?_⟩
    rw [hposition, hlexeme]

end Scan

end BlockLexer
