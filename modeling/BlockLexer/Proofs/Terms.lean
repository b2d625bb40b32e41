import BlockLexer.Proofs.Reading

/-!
# Reading an expression

The terms of an expression are read one after the other, and its brackets are counted on
the way.

* `reads_term` reads one term, whatever follows behind a space or the end of the line.
* `reads_expression` reads the whole row up to the end of its line, where no bracket is
  open any more.
-/

namespace BlockLexer

open Text Lexeme Grammar

/-! ## Closing brackets -/

namespace Grammar

variable {brackets brackets' : Brackets} {kind : Kind} {kinds : List Kind}

/-- An expression closes what it opens. -/
theorem Closes.of_isExpression (h : IsExpression kinds) : Closes {} kinds := by
  refine ⟨h.members, fun bracket beginning hbeginning => ?_, fun bracket => ?_⟩
  · rw [Brackets.depth_empty, Nat.zero_add]
    exact h.opened bracket beginning hbeginning
  · rw [Brackets.depth_empty, Nat.zero_add]
    exact h.balanced bracket

/-- Where nothing is left to come, no bracket is open. -/
theorem Closes.isBalanced (h : Closes brackets []) : brackets.isBalanced = true := by
  rw [Brackets.isBalanced_iff]
  intro bracket
  have hbalanced := h.balanced bracket
  simpa using hbalanced

/-- Behind a kind the rest closes what is open then. -/
theorem Closes.of_cons
    (hdepth : ∀ bracket : Bracket, brackets.depth bracket + [kind].count bracket.opening =
      brackets'.depth bracket + [kind].count bracket.closing)
    (h : Closes brackets (kind :: kinds)) : Closes brackets' kinds := by
  refine ⟨fun other hother => h.members other (List.mem_cons_of_mem kind hother),
    fun bracket beginning hbeginning => ?_, fun bracket => ?_⟩
  · have hopened := h.opened bracket (kind :: beginning) (List.cons_prefix_cons.2 ⟨rfl, hbeginning⟩)
    have hkind := hdepth bracket
    rw [count_cons_eq_add kind bracket.closing beginning,
      count_cons_eq_add kind bracket.opening beginning] at hopened
    omega
  · have hbalanced := h.balanced bracket
    have hkind := hdepth bracket
    rw [count_cons_eq_add kind bracket.opening kinds,
      count_cons_eq_add kind bracket.closing kinds] at hbalanced
    omega

theorem Closes.of_term (hkind : kind.IsTerm) (h : Closes brackets (kind :: kinds)) :
    Closes brackets kinds := by
  refine h.of_cons fun bracket => ?_
  rw [hkind.count_opening bracket, hkind.count_closing bracket]

/-- A bracket that is closed is open before. -/
theorem Closes.depth_pos {bracket : Bracket} (h : Closes brackets (bracket.closing :: kinds)) :
    0 < brackets.depth bracket := by
  have hopened := h.opened bracket [bracket.closing] (List.prefix_append [bracket.closing] kinds)
  rw [Bracket.count_closing, if_pos rfl, Bracket.count_opening_of_closing] at hopened
  omega

end Grammar

namespace Brackets

theorem exists_take?_opening (brackets : Brackets) (bracket : Bracket) :
    ∃ brackets', brackets.take? [bracket.openingChar] = some (bracket.opening, brackets') := by
  cases bracket <;> exact ⟨_, rfl⟩

theorem exists_take?_closing {brackets : Brackets} {bracket : Bracket}
    (h : 0 < brackets.depth bracket) :
    ∃ brackets', brackets.take? [bracket.closingChar] = some (bracket.closing, brackets') := by
  have hne : brackets.depth bracket ≠ 0 := Nat.ne_of_gt h
  cases bracket <;> exact ⟨_, if_neg hne⟩

end Brackets

/-! ## Terms -/

theorem Decimal.natOfDigits_eq_ofDigitChars {digits : List Char}
    (hdigits : ∀ c ∈ digits, c.isDigit = true) :
    natOfDigits 10 digits = Nat.ofDigitChars 10 digits 0 := by
  rw [natOfDigits, Nat.ofDigitChars_eq_foldl]
  refine List.foldl_ext _ _ 0 fun n c hc => ?_
  rw [digitValue, if_pos (hdigits c hc), Nat.mul_comm]
  rfl

/-- The digits of an integer, with zeros in front of them. -/
theorem isDigit_of_mem_integer {zeros n : Nat} {c : Char}
    (hc : c ∈ List.replicate zeros '0' ++ Nat.toDigits 10 n) : c.isDigit = true := by
  rcases List.mem_append.1 hc with hzero | hdigit
  · rw [List.eq_of_mem_replicate hzero]
    rfl
  · exact Nat.isDigit_of_mem_toDigits (by decide) (by decide) hdigit

/-- The digits of an integer denote it. -/
theorem Decimal.natOfDigits_integer (zeros n : Nat) :
    natOfDigits 10 (List.replicate zeros '0' ++ Nat.toDigits 10 n) = n := by
  rw [natOfDigits_eq_ofDigitChars fun c hc => isDigit_of_mem_integer hc, Nat.ofDigitChars_append,
    Nat.ofDigitChars_replicate_zero, Nat.mul_zero, Nat.ofDigitChars_ten_toDigits]

/-- What is a word of letters in lower case is an identifier. -/
theorem isIdentifier_of_map_toLower {word : List Char} (hne : word ≠ [])
    (halpha : ∀ c ∈ word.map Char.toLower, c.isAlpha = true) : isIdentifier word = true := by
  have hstarts : ∀ c ∈ word, startsName c = true := by
    intro c hc
    have hletter : c.isAlpha = true := isAlpha_of_toLower (halpha _ (List.mem_map_of_mem hc))
    rw [startsName, hletter, Bool.or_true]
  obtain ⟨first, more, rfl⟩ := List.exists_cons_of_ne_nil hne
  obtain ⟨hfirst, hmore⟩ := List.forall_mem_cons.1 hstarts
  rw [isIdentifier, hfirst, Bool.true_and, List.all_eq_true]
  exact fun c hc => continuesName_of_startsName (hmore c hc)

theorem isIdentifier_of_boolWord {value : Bool} {word : List Char}
    (h : word.map Char.toLower = boolWord value) : isIdentifier word = true := by
  refine isIdentifier_of_map_toLower ?_ ?_
  · rintro rfl
    cases value <;> cases h
  · rw [h]
    cases value <;> exact List.all_eq_true.1 rfl

theorem isIdentifier_of_noneWord {word : List Char}
    (h : word.map Char.toLower = ['n', 'o', 'n', 'e']) : isIdentifier word = true := by
  refine isIdentifier_of_map_toLower ?_ ?_
  · rintro rfl
    cases h
  · rw [h]
    exact List.all_eq_true.1 rfl

/-- A character that leaves a mark on the page and begins no comment. -/
def isInk (c : Char) : Bool :=
  !isBlank c && c ≠ ';' && c ≠ '\n' && c ≠ '\r'

theorem isInk_of_continuesName {c : Char} (h : continuesName c = true) : isInk c = true := by
  have hremark : c ≠ ';' := ne_of_class h rfl
  have hfeed : c ≠ '\n' := ne_of_class h rfl
  have hreturn : c ≠ '\r' := ne_of_class h rfl
  simp [isInk, not_isBlank_of_continuesName h, hremark, hfeed, hreturn]

namespace Term

/-- A term is written in ink. -/
theorem isInk_of_mem_text (term : Term) : ∀ c ∈ term.text, isInk c = true := by
  intro c hc
  cases term with
  | operator sign hsign =>
    rw [List.mem_singleton.1 hc]
    have hall : ∀ c ∈ ['-', '+', '*', '/', '&', '|', '!', ':', '.', ','], isInk c = true :=
      List.all_eq_true.1 rfl
    exact hall sign (List.contains_iff_mem.1 hsign)
  | opening bracket | closing bracket =>
    rw [List.mem_singleton.1 hc]
    cases bracket <;> rfl
  | identifier name => exact isInk_of_continuesName (continuesName_of_isIdentifier name.shape c hc)
  | bool value word hword =>
    have hshape := isIdentifier_of_boolWord hword
    exact isInk_of_continuesName (continuesName_of_isIdentifier hshape c hc)
  | nothing word hword =>
    have hshape := isIdentifier_of_noneWord hword
    exact isInk_of_continuesName (continuesName_of_isIdentifier hshape c hc)
  | integer zeros n hn =>
    exact isInk_of_continuesName (continuesName_of_isDigit (isDigit_of_mem_integer hc))

theorem text_ne_nil (term : Term) : term.text ≠ [] := by
  cases term with
  | operator sign _ => exact List.cons_ne_nil sign []
  | opening bracket => exact List.cons_ne_nil bracket.openingChar []
  | closing bracket => exact List.cons_ne_nil bracket.closingChar []
  | identifier name => exact ne_nil_of_isIdentifier name.shape
  | bool value word hword => exact ne_nil_of_isIdentifier (isIdentifier_of_boolWord hword)
  | nothing word hword => exact ne_nil_of_isIdentifier (isIdentifier_of_noneWord hword)
  | integer zeros n hn => exact List.append_ne_nil_of_right_ne_nil _ Nat.toDigits_ne_nil

/-- A term begins with no blank and begins no comment. -/
theorem exists_cons (term : Term) :
    ∃ first more, term.text = first :: more ∧ isBlank first = false ∧ first ≠ ';' := by
  obtain ⟨first, more, htext⟩ := List.exists_cons_of_ne_nil term.text_ne_nil
  have hink : isInk first = true := by
    refine term.isInk_of_mem_text first ?_
    rw [htext]
    exact List.mem_cons_self
  simp only [isInk, Bool.and_eq_true, Bool.not_eq_true', decide_eq_true_eq] at hink
  exact ⟨first, more, htext, hink.1.1.1, hink.1.1.2⟩

theorem lineFeed_not_mem (term : Term) : '\n' ∉ term.text := by
  intro hmem
  cases term.isInk_of_mem_text '\n' hmem

end Term

section Terms

variable {table : LineTable} {rest : List Char} {line : Nat} {brackets brackets' : Brackets}
  {outer : List Activation} {blocks : BlockStack} {last : Option (Kind × Nat)}

/-- The view inside an expression. -/
def View.inside (rest : List Char) (line : Nat) (brackets : Brackets) (outer : List Activation)
    (blocks : BlockStack) (last : Option (Kind × Nat)) : View :=
  { rest, line, modes := .expression brackets :: outer, blocks, last }

/-- One step inside an expression. -/
theorem reads_inside {kind : Kind} {value : Value} {word : List Char} {rule : Rule}
    (hcategory : kind.category ≠ .structural) (hfiltered : kind.isFiltered = false)
    (hfeed : '\n' ∉ word)
    (hselect : Mode.expression.select (word ++ rest) = some (rule, { lexeme := word }))
    (hacts : Acts table (.inside (word ++ rest) line brackets outer blocks last) rule
      { lexeme := word } (kind, value) (.expression brackets' :: outer) blocks) :
    Reads table (.inside (word ++ rest) line brackets outer blocks last) [(kind, value)]
      (.inside rest line brackets' outer blocks (some (kind, line))) := by
  have hne : kind ≠ .attributeName := by
    rintro rfl
    exact hcategory rfl
  have hsettled : settled table line kind blocks = .ok blocks := if_neg hne
  have hread := reads_of_select (kind, value) word rfl hacts hselect hsettled
  rw [List.count_eq_zero.2 hfeed] at hread
  simp only [kept, noted, hfiltered, Bool.false_eq_true, if_false] at hread
  exact hread

/-- A term that is no bracket. -/
theorem reads_plainTerm {kind : Kind} {value : Value} {word : List Char} {rule : Rule}
    (hkind : kind.IsTerm) (hfeed : '\n' ∉ word)
    (hselect : Mode.expression.select (word ++ rest) = some (rule, { lexeme := word }))
    (hact : ∀ s : Scan, s.act table rule { lexeme := word } =
      (s, .ok (some (s.token kind value word)))) :
    Reads table (.inside (word ++ rest) line brackets outer blocks last) [(kind, value)]
      (.inside rest line brackets outer blocks (some (kind, line))) :=
  reads_inside hkind.1 hkind.isFiltered hfeed hselect (.token fun s _ => hact s)

/-- A bracket that is taken. -/
theorem reads_bracket {kind : Kind} {sign : Char} (hfeed : sign ≠ '\n')
    (hselect : Mode.expression.select (sign :: rest) = some (.bracket, { lexeme := [sign] }))
    (htake : brackets.take? [sign] = some (kind, brackets')) :
    Reads table (.inside (sign :: rest) line brackets outer blocks last) [(kind, .nothing)]
      (.inside rest line brackets' outer blocks (some (kind, line))) := by
  have hturns := Brackets.turns_of_take? htake
  have hcategory : kind.category ≠ .structural := by
    rw [hturns.category]
    decide
  have hnot : '\n' ∉ [sign] := by simpa using hfeed.symm
  refine reads_inside hcategory hturns.isFiltered hnot hselect ?_
  intro s hs
  have hmodes : s.modes = .expression brackets :: outer := congrArg View.modes hs
  exact ⟨_, _, (Scan.Accepts.bracket hmodes htake).act_eq, rfl, rfl, congrArg View.line hs, rfl,
    congrArg View.blocks hs⟩

/-- The digits of a number that is in bounds denote it. -/
theorem Scan.act_of_integer (table : LineTable) (s : Scan) (zeros : Nat) {n : Nat}
    (hn : n < integerBound) :
    s.act table .integer { lexeme := List.replicate zeros '0' ++ Nat.toDigits 10 n } =
      (s, .ok (some (s.token .integer (.integer n)
        (List.replicate zeros '0' ++ Nat.toDigits 10 n)))) := by
  have hvalue := Decimal.natOfDigits_integer zeros n
  rw [(Accepts.integer (by rwa [hvalue])).act_eq, hvalue]

/-- A term is read as a whole, whatever follows behind a space or the end of the line. -/
theorem reads_term (term : Term) {kinds : List Kind} (hrest : Ends rest)
    (hcloses : Closes brackets (term.entry.1 :: kinds)) :
    ∃ brackets', Closes brackets' kinds ∧
      Reads table (.inside (term.text ++ rest) line brackets outer blocks last) [term.entry]
        (.inside rest line brackets' outer blocks (some (term.entry.1, line))) := by
  have hfeed := term.lineFeed_not_mem
  cases term with
  | operator sign hsign =>
    have hterm := Scan.isTerm_operatorKind [sign]
    refine ⟨brackets, hcloses.of_term hterm, ?_⟩
    exact reads_plainTerm hterm hfeed (Mode.select_expression_operator hsign hrest) fun s => rfl
  | opening bracket =>
    obtain ⟨brackets', htake⟩ := brackets.exists_take?_opening bracket
    have hturns := Brackets.turns_of_take? htake
    refine ⟨brackets', hcloses.of_cons hturns.depth_eq, ?_⟩
    have hne : bracket.openingChar ≠ '\n' := by cases bracket <;> decide
    exact reads_bracket hne (Mode.select_expression_opening bracket rest) htake
  | closing bracket =>
    obtain ⟨brackets', htake⟩ := Brackets.exists_take?_closing hcloses.depth_pos
    have hturns := Brackets.turns_of_take? htake
    refine ⟨brackets', hcloses.of_cons hturns.depth_eq, ?_⟩
    have hne : bracket.closingChar ≠ '\n' := by cases bracket <;> decide
    exact reads_bracket hne (Mode.select_expression_closing bracket rest) htake
  | identifier name =>
    have hterm : Kind.identifier.IsTerm := by decide
    refine ⟨brackets, hcloses.of_term hterm, ?_⟩
    exact reads_plainTerm hterm hfeed (Mode.select_expression_identifier name.shape hrest)
      fun s => (Scan.Accepts.identifier name.free).act_eq
  | bool value word hword =>
    have hterm : Kind.bool.IsTerm := by decide
    have hshape : isIdentifier word = true := isIdentifier_of_boolWord hword
    refine ⟨brackets, hcloses.of_term hterm, ?_⟩
    exact reads_plainTerm hterm hfeed (Mode.select_expression_identifier hshape hrest)
      fun s => match value with
        | true => (Scan.Accepts.trueWord hword).act_eq
        | false => (Scan.Accepts.falseWord hword).act_eq
  | nothing word hword =>
    have hterm : Kind.nothing.IsTerm := by decide
    have hshape : isIdentifier word = true := isIdentifier_of_noneWord hword
    refine ⟨brackets, hcloses.of_term hterm, ?_⟩
    exact reads_plainTerm hterm hfeed (Mode.select_expression_identifier hshape hrest)
      fun s => (Scan.Accepts.noneWord hword).act_eq
  | integer zeros n hn =>
    have hterm : Kind.integer.IsTerm := by decide
    have hne : List.replicate zeros '0' ++ Nat.toDigits 10 n ≠ [] :=
      List.append_ne_nil_of_right_ne_nil _ Nat.toDigits_ne_nil
    refine ⟨brackets, hcloses.of_term hterm, ?_⟩
    exact reads_plainTerm hterm hfeed
      (Mode.select_expression_integer hne (fun c hc => isDigit_of_mem_integer hc) hrest)
      fun s => s.act_of_integer table zeros hn

/-! ## Rows of terms -/

/-- Terms with a space in front of each. -/
def spaced (terms : List Term) : List Char :=
  terms.flatMap fun term => ' ' :: term.text

theorem spaced_cons (term : Term) (terms : List Term) :
    spaced (term :: terms) = ' ' :: (term.text ++ spaced terms) := rfl

/-- Between single spaces, all terms but the first have a space in front of them. -/
theorem joinWith_cons (term : Term) (terms : List Term) :
    joinWith [' '] ((term :: terms).map Term.text) = term.text ++ spaced terms := by
  induction terms generalizing term with
  | nil => simp [joinWith, spaced]
  | cons next terms ih =>
    have hnext := ih next
    rw [spaced_cons, ← hnext]
    simp [joinWith, List.intercalate]

theorem ends_spaced (terms : List Term) (rest : List Char) :
    Ends (spaced terms ++ '\n' :: rest) := by
  cases terms with
  | nil => exact ends_lineFeed rest
  | cons term terms => exact ends_space _

/-- A space in front of a term is read and nothing comes out. -/
theorem reads_space (term : Term) :
    Reads table (.inside (' ' :: (term.text ++ rest)) line brackets outer blocks last) []
      (.inside (term.text ++ rest) line brackets outer blocks last) := by
  obtain ⟨first, more, htext, hblank, hremark⟩ := term.exists_cons
  have hselect := Mode.select_expression_blanks (more ++ rest) hblank hremark
  rw [htext]
  exact reads_of_select (.blanks, .nothing) [' '] rfl (.token fun s hs => rfl) hselect rfl

/-- The terms of a row are read one after the other, and in the end no bracket is open. -/
theorem reads_spaced (terms : List Term)
    (hcloses : Closes brackets (terms.map fun term => term.entry.1))
    (hpast : IsPast last (line + 1)) :
    ∃ brackets' last', brackets'.isBalanced = true ∧ IsPast last' (line + 1) ∧
      Reads table (.inside (spaced terms ++ '\n' :: rest) line brackets outer blocks last)
        (terms.map Term.entry) (.inside ('\n' :: rest) line brackets' outer blocks last') := by
  induction terms generalizing brackets last with
  | nil => exact ⟨brackets, last, hcloses.isBalanced, hpast, .refl _⟩
  | cons term terms ih =>
    have hfirst : ∃ middle, Closes middle (terms.map fun term => term.entry.1) ∧
        Reads table
          (.inside (term.text ++ (spaced terms ++ '\n' :: rest)) line brackets outer blocks last)
          [term.entry]
          (.inside (spaced terms ++ '\n' :: rest) line middle outer blocks
            (some (term.entry.1, line))) :=
      reads_term term (ends_spaced terms rest) hcloses
    obtain ⟨middle, hmiddle, hterm⟩ := hfirst
    obtain ⟨brackets', last', hbalanced, hpast', hmore⟩ := ih hmiddle (isPast_some _ line)
    refine ⟨brackets', last', hbalanced, hpast', ?_⟩
    have hread := (reads_space term).trans (hterm.trans hmore)
    rw [spaced_cons, List.cons_append, List.append_assoc]
    exact hread

/-- The end of the line ends an expression in which no bracket is open. -/
theorem reads_expressionNewline (hbalanced : brackets.isBalanced = true) :
    Reads table
      (.inside ('\n' :: rest) line brackets (List.replicate blocks.length .block) blocks last) []
      (.between rest (line + 1) blocks last) := by
  have hacts : Acts table
      (.inside ('\n' :: rest) line brackets (List.replicate blocks.length .block) blocks last)
      .expressionNewline { lexeme := ['\n'] } (.newline, .nothing)
      (List.replicate blocks.length .block) blocks := by
    intro s hs
    have hmodes : s.modes = .expression brackets :: List.replicate blocks.length .block :=
      congrArg View.modes hs
    exact ⟨_, _, (Scan.Accepts.lastNewline hmodes hbalanced).act_eq, rfl, rfl, congrArg View.line hs,
      congrArg List.tail hmodes, congrArg View.blocks hs⟩
  exact reads_of_select (.newline, .nothing) ['\n'] rfl hacts (Mode.select_expression_newline rest)
    rfl

/-- An expression and the end of its line are read behind the name of its attribute. -/
theorem reads_expression (expression : Expression) (hpast : IsPast last (line + 1)) :
    ∃ last', IsPast last' (line + 1) ∧
      Reads table
        (.inside (joinWith [' '] (expression.terms.map Term.text) ++ '\n' :: rest) line {}
          (List.replicate blocks.length .block) blocks last)
        (expression.terms.map Term.entry) (.between rest (line + 1) blocks last') := by
  obtain ⟨terms, hshape⟩ := expression
  have hcloses := Closes.of_isExpression hshape
  cases terms with
  | nil => exact ⟨last, hpast, reads_expressionNewline rfl⟩
  | cons term terms =>
    have hfirst : ∃ middle, Closes middle (terms.map fun term => term.entry.1) ∧
        Reads table
          (.inside (term.text ++ (spaced terms ++ '\n' :: rest)) line {}
            (List.replicate blocks.length .block) blocks last)
          [term.entry]
          (.inside (spaced terms ++ '\n' :: rest) line middle
            (List.replicate blocks.length .block) blocks (some (term.entry.1, line))) :=
      reads_term term (ends_spaced terms rest) hcloses
    obtain ⟨middle, hmiddle, hterm⟩ := hfirst
    obtain ⟨brackets', last', hbalanced, hpast', hmore⟩ :=
      reads_spaced terms hmiddle (isPast_some _ line)
    refine ⟨last', hpast', ?_⟩
    have hread := hterm.trans (hmore.trans (reads_expressionNewline hbalanced))
    rw [List.append_nil] at hread
    rw [joinWith_cons, List.append_assoc]
    exact hread

end Terms

end BlockLexer
