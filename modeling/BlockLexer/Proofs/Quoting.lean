import BlockLexer.Proofs.Dedented
import BlockLexer.Proofs.RoundTrip
import BlockLexer.Proofs.StringValues

/-!
# Writing strings

Every text can be written as a string, in each of the four styles.  This module says that it is
found again.

* `Mode.select_expression_openString`, `Mode.exists_select_part` and `Mode.select_closeString`
  are the rules that win at a string, and `reads_string` reads it from its first quotes to its
  last.
* `encode` writes escapes for what a string cannot hold as it is, and `decode_encode` and
  `untilQuotes?_encode` read it back.
* `passes_stringLine` reads an attribute with such a string, and `tokenize_stringBlock` a block
  with such an attribute.
-/

namespace BlockLexer

open Text Pattern Lexeme Grammar

/-! ## Steps between quotes -/

section Strings

variable {style : QuoteStyle} {cs content rest : List Char}

/-- The first rules of a string. -/
theorem Mode.exists_string_rules (style : QuoteStyle) :
    ∃ more, (Mode.string style).rules =
      .escape :: .closeString style :: .stringText style :: more ∧
      (style.isTriple = true → more = [.loneQuote style]) := by
  cases style with
  | single | double => exact ⟨[], rfl, fun h => by cases h⟩
  | tripleSingle | tripleDouble => exact ⟨_, rfl, fun _ => rfl⟩

theorem untilQuotes?_of_isPrefix (h : style.quotes <+: cs) :
    untilQuotes? style.quotes cs = some [] := by
  obtain ⟨more, rfl⟩ := h
  exact untilQuotes?_quotes style more

/-- Where the quotes do not follow yet, a rule takes a part of the string, unless the line ends
in a string that must end on it. -/
theorem Mode.exists_select_part {c : Char}
    (h : untilQuotes? style.quotes cs = some (c :: content))
    (hline : style.isTriple = true ∨ c ≠ '\n') :
    ∃ rule m, (Mode.string style).select cs = some (rule, m) ∧
      (rule = .escape ∨ rule = .stringText style ∨ rule = .loneQuote style) := by
  obtain ⟨more, hrules, htriple⟩ := exists_string_rules style
  have hopen : ¬ style.quotes <+: cs := fun hquotes => by
    cases (untilQuotes?_of_isPrefix hquotes).symm.trans h
  match cs with
  | [] => cases h
  | d :: ds =>
    by_cases hback : d = '\\'
    · subst hback
      cases ds with
      | nil => simp [untilQuotes?, hopen] at h
      | cons e ds =>
        have hescape : escape ('\\' :: e :: ds) = some (['\\', e], ds) := rfl
        exact ⟨.escape, _, select_of_split [] hrules (by simp) (Match.ofPattern_eq_some hescape)
          (List.cons_ne_nil _ _), .inl rfl⟩
    have hescape : Rule.escape.match? (d :: ds) = none := by
      refine Match.ofPattern_eq_none (seq_eq_none_of_left ?_)
      exact one_eq_none (stops_cons (decide_eq_false hback))
    have hclose : (Rule.closeString style).match? (d :: ds) = none := by
      refine Match.ofPattern_eq_none (if_neg fun htake => hopen ?_)
      rw [← htake]
      exact List.take_prefix _ _
    rw [untilQuotes?_cons hback hopen] at h
    obtain ⟨content', -, hcons⟩ := Option.map_eq_some_iff.1 h
    obtain ⟨rfl, rfl⟩ := List.cons.inj hcons
    by_cases hmark : d = style.mark
    · -- A single quote would end the string.
      have hstyle : style.isTriple = true := by
        cases style with
        | single | double => exact absurd ⟨ds, by rw [hmark]; rfl⟩ hopen
        | tripleSingle | tripleDouble => rfl
      obtain rfl := htriple hstyle
      have htext : (Rule.stringText style).match? (d :: ds) = none :=
        Match.ofPattern_eq_none (many1_of_stops (stops_cons (by simp [isStringText, hmark])))
      have hone : one (· = style.mark) (d :: ds) = some ([d], ds) := if_pos (decide_eq_true hmark)
      have hquote : (Rule.loneQuote style).match? (d :: ds) = some { lexeme := [d] } :=
        Match.ofPattern_eq_some hone
      refine ⟨.loneQuote style, _,
        select_of_split [.escape, .closeString style, .stringText style] hrules ?_ hquote
          (List.cons_ne_nil _ _), .inr (.inr rfl)⟩
      simp only [List.forall_mem_cons]
      exact ⟨hescape, hclose, htext, by simp⟩
    · have htext : isStringText style d = true := by
        simp only [isStringText, Bool.and_eq_true, Bool.or_eq_true, decide_eq_true_eq]
        exact ⟨⟨hmark, hback⟩, hline⟩
      have hword : ((d :: ds).takeWhile (isStringText style)) ≠ [] := by
        rw [List.takeWhile_cons_of_pos htext]
        exact List.cons_ne_nil _ _
      have hmany : many1 (isStringText style) (d :: ds) =
          some ((d :: ds).takeWhile (isStringText style),
            (d :: ds).dropWhile (isStringText style)) :=
        if_neg (by simpa using hword)
      refine ⟨.stringText style, _, select_of_split [.escape, .closeString style] hrules ?_
        (Match.ofPattern_eq_some hmany) hword, .inr (.inl rfl)⟩
      simp only [List.forall_mem_cons]
      exact ⟨hescape, hclose, by simp⟩

/-- Quotes without a letter open no string of another style, unless they are its quotes, too. -/
theorem Mode.match?_openString_of_not_prefix {other : QuoteStyle}
    (h : ¬ other.quotes <+: style.quotes ++ cs) :
    (Rule.openString other).match? (style.quotes ++ cs) = none := by
  have hmark : Pattern.one Char.isAlpha (style.quotes ++ cs) = none := by
    obtain ⟨more, hmore⟩ := style.exists_quotes_eq_cons
    rw [hmore]
    exact one_eq_none (stops_cons style.not_isAlpha_mark)
  have hletter : Pattern.optional (.one Char.isAlpha) (style.quotes ++ cs) =
      some ([], style.quotes ++ cs) := by
    rw [Pattern.optional, orElse, hmark]
    rfl
  have hword : Pattern.word other.quotes (style.quotes ++ cs) = none := by
    refine if_neg fun htake => h ?_
    rw [← htake]
    exact List.take_prefix _ _
  simp only [Rule.match?, Match.ofGroup, Pattern.nothing, hletter, hword]

theorem QuoteStyle.not_prefix_of_mark_ne {other : QuoteStyle} (h : other.mark ≠ style.mark) :
    ¬ other.quotes <+: style.quotes ++ cs := by
  obtain ⟨more, hmore⟩ := style.exists_quotes_eq_cons
  obtain ⟨more', hmore'⟩ := other.exists_quotes_eq_cons
  rw [hmore, hmore', List.cons_append]
  exact fun hquotes => h (List.cons_prefix_cons.1 hquotes).1

/-- The quotes of a string open it, unless more quotes follow a single one. -/
theorem Mode.select_expression_openString
    (hsingle : style.isTriple = false → ¬ [style.mark, style.mark] <+: cs) :
    Mode.expression.select (style.quotes ++ cs) =
      some (.openString style, { lexeme := style.quotes, group := some ([], []) }) := by
  obtain ⟨more, hmore⟩ := style.exists_quotes_eq_cons
  have hcomment : Rule.comment.match? (style.quotes ++ cs) = none := by
    refine Match.ofPattern_eq_none ?_
    rw [hmore]
    exact comment_eq_none (stops_cons (not_isBlank_mark style))
      (stops_cons (by cases style <;> rfl))
  have hcontinuation : Rule.continuation.match? (style.quotes ++ cs) = none := by
    refine Match.ofPattern_eq_none ?_
    rw [hmore]
    exact word_eq_none (stops_cons (decide_eq_false (mark_ne_backslash style)))
  have hopen := match?_openString_quotes style (.inl rfl) cs
  have hne : style.quotes ≠ [] := hmore ▸ List.cons_ne_nil _ _
  have hother {other : QuoteStyle} (hmark : other.mark ≠ style.mark) :
      (Rule.openString other).match? (style.quotes ++ cs) = none :=
    match?_openString_of_not_prefix (QuoteStyle.not_prefix_of_mark_ne hmark)
  -- The rules for three quotes are tried first.
  cases style with
  | tripleSingle =>
    refine select_of_split [.comment, .continuation] rfl ?_ hopen hne
    simp only [List.forall_mem_cons]
    exact ⟨hcomment, hcontinuation, by simp⟩
  | tripleDouble =>
    refine select_of_split [.comment, .continuation, .openString .tripleSingle] rfl ?_ hopen hne
    simp only [List.forall_mem_cons]
    exact ⟨hcomment, hcontinuation, hother (by decide), by simp⟩
  | single =>
    have htriple : ¬ QuoteStyle.tripleSingle.quotes <+: QuoteStyle.single.quotes ++ cs :=
      fun h => hsingle rfl (List.cons_prefix_cons.1 h).2
    refine select_of_split [.comment, .continuation, .openString .tripleSingle,
      .openString .tripleDouble] rfl ?_ hopen hne
    simp only [List.forall_mem_cons]
    exact ⟨hcomment, hcontinuation, match?_openString_of_not_prefix htriple, hother (by decide),
      by simp⟩
  | double =>
    have htriple : ¬ QuoteStyle.tripleDouble.quotes <+: QuoteStyle.double.quotes ++ cs :=
      fun h => hsingle rfl (List.cons_prefix_cons.1 h).2
    refine select_of_split [.comment, .continuation, .openString .tripleSingle,
      .openString .tripleDouble, .openString .single] rfl ?_ hopen hne
    simp only [List.forall_mem_cons]
    exact ⟨hcomment, hcontinuation, hother (by decide), match?_openString_of_not_prefix htriple,
      hother (by decide), by simp⟩

/-- The quotes of a string close it. -/
theorem Mode.select_closeString (style : QuoteStyle) (cs : List Char) :
    (Mode.string style).select (style.quotes ++ cs) =
      some (.closeString style, { lexeme := style.quotes }) := by
  obtain ⟨more, hmore⟩ := style.exists_quotes_eq_cons
  obtain ⟨rules, hrules, -⟩ := exists_string_rules style
  have hescape : Rule.escape.match? (style.quotes ++ cs) = none := by
    refine Match.ofPattern_eq_none (seq_eq_none_of_left ?_)
    rw [hmore]
    exact one_eq_none (stops_cons (decide_eq_false (mark_ne_backslash style)))
  refine select_of_split [.escape] hrules ?_ (Scan.match?_closeString style cs)
    (hmore ▸ List.cons_ne_nil _ _)
  simp only [List.forall_mem_cons]
  exact ⟨hescape, by simp⟩

end Strings

namespace Scan

variable {table : LineTable} {s : Scan} {style : QuoteStyle} {raw : Bool} {line column : Nat}
  {outer : List Activation} {content after : List Char}

/-- The action of such a rule yields a part. -/
theorem exists_part_of_act {rule : Rule} (table : LineTable) (m : Match) (s : Scan)
    (hrule : rule = .escape ∨ rule = .stringText style ∨ rule = .loneQuote style) :
    ∃ piece, s.act table rule m = (s, .ok (some piece)) ∧ piece.kind.IsPart := by
  rcases hrule with rfl | rfl | rfl
  · exact ⟨_, rfl, isPart_escaped m s⟩
  · exact ⟨_, rfl, trivial⟩
  · exact ⟨_, rfl, trivial⟩

/-- The parts of a string are not remembered. -/
theorem remembered_of_isPart {piece : Piece} (h : piece.kind.IsPart)
    (last : Option (Kind × Nat)) : remembered piece last = last := by
  rw [remembered, h.notedKind?]
  rfl

/-- Where the quotes do not follow yet, a step takes a part of the string. -/
theorem exists_step_of_content {c : Char} {cs : List Char}
    (hmodes : s.modes = .string style raw line column :: outer)
    (hrest : s.rest = content ++ after) (hcontent : content = c :: cs)
    (hends : untilQuotes? style.quotes s.rest = some content)
    (hline : style.isTriple = true ∨ '\n' ∉ content) (table : LineTable) :
    ∃ t piece taken content', s.step table = (t, some (.ok piece)) ∧ t.isDone = s.isDone ∧
      piece.kind.IsPart ∧ taken ≠ [] ∧ content = taken ++ content' ∧
      untilQuotes? style.quotes t.rest = some content' ∧
      t.view = { s.view with
        rest := content' ++ after
        line := s.position.line + taken.count '\n' } := by
  subst hcontent
  obtain ⟨rule, m, hselect, hrule⟩ :=
    Mode.exists_select_part hends (hline.imp_right fun hnot he => hnot (he ▸ List.mem_cons_self))
  rw [← mode_eq_string hmodes] at hselect
  obtain ⟨left, hleft⟩ := Rule.exists_append_of_match? (Mode.match?_of_select hselect)
  obtain ⟨piece, hact, hpart⟩ := exists_part_of_act table m
    (s.report (.ruleMatched rule s.mode s.position.line s.position.column)) hrule
  obtain ⟨t, hstep, hend, hview⟩ := exists_step_of_act hselect hleft hact
  rw [remembered_of_isPart hpart] at hview
  have htrest : t.rest = left := congrArg View.rest hview
  -- The part stands in front of the rest of the string.
  obtain ⟨taken, htaken, hisPart⟩ := isPartOf_of_step hmodes hstep hpart
  rw [htrest] at htaken hisPart
  obtain rfl : m.lexeme = taken := List.append_cancel_right (hleft.symm.trans htaken)
  rw [hleft, hisPart.untilQuotes?_eq] at hends
  obtain ⟨content', hends', hsplit⟩ := Option.map_eq_some_iff.1 hends
  have hleft' : left = content' ++ after := by
    rw [hrest, ← hsplit, List.append_assoc] at hleft
    exact (List.append_cancel_left hleft).symm
  refine ⟨t, piece, m.lexeme, content', hstep, hend, hpart, Mode.select_lexeme_ne_nil hselect,
    hsplit.symm, by rw [htrest, hends'], ?_⟩
  rw [hview, hleft']
  rfl

/-- Up to the quotes that close it, a string is read part by part. -/
theorem exists_run_of_content (hs : s.isDone = false)
    (hmodes : s.modes = .string style raw line column :: outer)
    (hrest : s.rest = content ++ after)
    (hends : untilQuotes? style.quotes s.rest = some content)
    (hline : style.isTriple = true ∨ '\n' ∉ content) (table : LineTable) :
    ∃ parts u, Run table s parts u ∧ u.isDone = false ∧ (∀ part ∈ parts, part.kind.IsPart) ∧
      u.view = { s.view with
        rest := after
        line := s.position.line + content.count '\n' } := by
  -- The induction is on what is left of the string, which each part makes shorter.
  induction hlength : content.length using Nat.strongRecOn generalizing s content with
  | ind n ih =>
    subst hlength
    match hcontent : content with
    | [] =>
      refine ⟨[], s, .refl s, hs, by simp, ?_⟩
      rw [view, hrest]
      rfl
    | c :: cs =>
      obtain ⟨t, piece, taken, content', hstep, hdone, hpart, hne, hsplit, hends', hview⟩ :=
        exists_step_of_content hmodes hrest rfl hends hline table
      have htmodes : t.modes = .string style raw line column :: outer :=
        (congrArg View.modes hview).trans hmodes
      have hshorter : content'.length < (c :: cs).length := by
        have hpos := List.length_pos_iff.2 hne
        rw [hsplit, List.length_append]
        omega
      have hline' : style.isTriple = true ∨ '\n' ∉ content' :=
        hline.imp_right fun hnot hmem => hnot (hsplit ▸ List.mem_append_right _ hmem)
      obtain ⟨parts, u, hrun, hu, hparts, huview⟩ := ih content'.length hshorter
        (hdone.trans hs) htmodes (congrArg View.rest hview) hends' hline' rfl
      have hsettles : Settles table piece t t := .other (hpart.ne_token _) hpart.ne_stringEnd
      refine ⟨piece :: parts, u, .piece hs hstep hsettles hrun, hu,
        List.forall_mem_cons.2 ⟨hpart, hparts⟩, ?_⟩
      have htline : t.position.line = s.position.line + taken.count '\n' :=
        congrArg View.line hview
      rw [huview, hview, htline, hsplit, List.count_append, Nat.add_assoc]

/-- Quotes open a string in an expression. -/
theorem exists_opening {brackets : Brackets} {cs : List Char} (table : LineTable)
    (hmodes : s.modes = .expression brackets :: outer) (hrest : s.rest = style.quotes ++ cs)
    (hsingle : style.isTriple = false → ¬ [style.mark, style.mark] <+: cs) :
    ∃ t start line column, s.step table = (t, some (.ok start)) ∧ t.isDone = s.isDone ∧
      start.kind = .stringStart style false ∧ start.value = .text [] ∧
      t.view = { s.view with rest := cs, modes := .string style false line column :: s.modes } := by
  let m : Match := { lexeme := style.quotes, group := some ([], []) }
  have hselect : s.mode.select s.rest = some (.openString style, m) := by
    rw [mode, hmodes, hrest]
    exact Mode.select_expression_openString hsingle
  have hact : ∃ a start line column,
      (s.report (.ruleMatched (.openString style) s.mode s.position.line s.position.column)).act
        table (.openString style) m = (a, .ok (some start)) ∧
      start.kind = .stringStart style false ∧
      start.value = .text [] ∧ a.modes = .string style false line column :: s.modes ∧
      a.blocks = s.blocks := ⟨_, _, _, _, rfl, rfl, rfl, rfl, rfl⟩
  obtain ⟨a, start, line, column, hact, hkind, hvalue, hamodes, hablocks⟩ := hact
  obtain ⟨t, hstep, hdone, hview⟩ := exists_step_of_act hselect hrest hact
  refine ⟨t, start, line, column, hstep, hdone, hkind, hvalue, ?_⟩
  have hlast : remembered start s.last = s.last := by rw [remembered, hkind]; rfl
  rw [hview, hamodes, hablocks, hlast]
  show View.mk cs (s.position.line + style.quotes.count '\n') _ _ _ = _
  rw [style.count_quotes]
  rfl

/-- Quotes close their string. -/
theorem exists_closing {cs : List Char} (table : LineTable)
    (hmodes : s.modes = .string style raw line column :: outer)
    (hrest : s.rest = style.quotes ++ cs) :
    ∃ t stop, s.step table = (t, some (.ok stop)) ∧ t.isDone = s.isDone ∧ stop.kind = .stringEnd ∧
      t.view = { s.view with
        rest := cs, modes := outer, last := some (.string, s.position.line) } := by
  let m : Match := { lexeme := style.quotes }
  have hselect : s.mode.select s.rest = some (.closeString style, m) := by
    rw [mode, hmodes, hrest]
    exact Mode.select_closeString style cs
  have hact : ∃ a stop,
      (s.report (.ruleMatched (.closeString style) s.mode s.position.line s.position.column)).act
        table (.closeString style) m = (a, .ok (some stop)) ∧ stop.kind = .stringEnd ∧
      stop.span.line = s.position.line ∧ a.modes = s.modes.tail ∧ a.blocks = s.blocks :=
    ⟨_, _, rfl, rfl, rfl, rfl, rfl⟩
  obtain ⟨a, stop, hact, hkind, hspan, hamodes, hablocks⟩ := hact
  obtain ⟨t, hstep, hdone, hview⟩ := exists_step_of_act hselect hrest hact
  refine ⟨t, stop, hstep, hdone, hkind, ?_⟩
  have hlast : remembered stop s.last = some (.string, s.position.line) := by
    rw [remembered, hkind, ← hspan]
    rfl
  rw [hview, hamodes, hablocks, hlast, hmodes]
  show View.mk cs (s.position.line + style.quotes.count '\n') _ _ _ = _
  rw [style.count_quotes]
  rfl

end Scan

/-- A string without a letter in front of it is read, and its escapes are decoded. -/
theorem reads_string {table : LineTable} {style : QuoteStyle} {content rest : List Char}
    {line : Nat} {brackets : Brackets} {outer : List Activation} {blocks : BlockStack}
    {last : Option (Kind × Nat)}
    (hsingle : style.isTriple = false →
      ¬ [style.mark, style.mark] <+: content ++ (style.quotes ++ rest))
    (hends : untilQuotes? style.quotes (content ++ (style.quotes ++ rest)) = some content)
    (hline : style.isTriple = true ∨ '\n' ∉ content) :
    Reads table
      (.inside (style.quotes ++ (content ++ (style.quotes ++ rest))) line brackets outer blocks
        last)
      [(.string, .text (decode content))]
      (.inside rest (line + content.count '\n') brackets outer blocks
        (some (.string, line + content.count '\n'))) := by
  intro s hs hdone
  have hmodes : s.modes = .expression brackets :: outer := congrArg View.modes hs
  obtain ⟨t, start, line', column, hopen, htdone, hstart, hletter, htview⟩ :=
    s.exists_opening table hmodes (congrArg View.rest hs) hsingle
  have htmodes : t.modes = .string style false line' column :: s.modes := congrArg View.modes htview
  have htrest : t.rest = content ++ (style.quotes ++ rest) := congrArg View.rest htview
  obtain ⟨parts, u, hrun, hudone, hparts, huview⟩ :=
    Scan.exists_run_of_content (htdone.trans hdone) htmodes htrest (htrest ▸ hends) hline table
  have hurest : u.rest = style.quotes ++ rest := congrArg View.rest huview
  have humodes : u.modes = .string style false line' column :: s.modes :=
    (congrArg View.modes huview).trans htmodes
  obtain ⟨v, stop, hclose, hvdone, hstop, hvview⟩ := u.exists_closing table humodes hurest
  -- What is joined is what stands between the quotes.
  obtain ⟨content', hcontent', hpartsOf⟩ := Scan.exists_content_of_run hrun htmodes hparts
  obtain rfl : content' = content := by
    rw [htrest, hurest] at hcontent'
    exact (List.append_cancel_right hcontent').symm
  have hliteral : ∃ token,
      Assembly.literal style start stop (Assembly.joined false parts) = .ok token ∧
        token.entry = (.string, .text (decode content')) := by
    rw [hpartsOf.joined_false, Assembly.literal, hletter]
    exact ⟨_, rfl, rfl⟩
  obtain ⟨token, hliteral, hentry⟩ := hliteral
  have hassembled : Assembled (start :: parts ++ [stop]) [token] := by
    have hkept : token.kind.isFiltered = false := by
      rw [show token.kind = .string from congrArg Prod.fst hentry]
      rfl
    rw [← List.append_nil (start :: parts ++ [stop])]
    exact .keep (.string hstart hparts hstop hliteral) hkept .nil
  have hfirst : Scan.Settles table start t t := .other (by simp [hstart]) (by simp [hstart])
  have hlast : Scan.Settles table stop v (v.report (Assembly.joinedEvent token)) :=
    .string _ hstop
  refine ⟨start :: parts ++ [stop], [token], v.report (Assembly.joinedEvent token),
    (Scan.Run.piece hdone hopen hfirst hrun).snoc hudone hclose hlast, ?_,
    hvdone.trans hudone, hassembled, by rw [List.map_singleton, hentry]⟩
  have hfirst : t.position.line = line :=
    (congrArg View.line htview : t.position.line = s.position.line).trans (congrArg View.line hs)
  have hlines : u.position.line = t.position.line + content'.count '\n' :=
    congrArg View.line huview
  show v.view = _
  rw [hvview, hlines, huview, htview, hfirst, hs, hmodes]
  rfl

/-! ## Texts with escapes -/

/-- The character that stands behind a backslash for one that a string cannot hold as it is. -/
def escapeLetter? : Char → Option Char
  | '\\' => some '\\'
  | '\x27' => some '\x27'
  | '"' => some '"'
  | '\n' => some 'n'
  | '\r' => some 'r'
  | '\t' => some 't'
  | '\x00' => some '0'
  | _ => none

/-- A character as a string holds it. -/
def encodeChar (c : Char) : List Char :=
  (escapeLetter? c).elim [c] fun d => ['\\', d]

/-- A text as a string holds it. -/
def encode (cs : List Char) : List Char :=
  cs.flatMap encodeChar

/-- A text between quotes. -/
def QuoteStyle.enclose (style : QuoteStyle) (cs : List Char) : List Char :=
  style.quotes ++ (encode cs ++ style.quotes)

section Escapes

variable {style : QuoteStyle} {c d : Char} {cs : List Char}

theorem encode_cons (c : Char) (cs : List Char) :
    encode (c :: cs) = encodeChar c ++ encode cs := rfl

/-- An escape stands for its character, and both are on one line. -/
theorem unescape_of_escapeLetter? (h : escapeLetter? c = some d) :
    unescape d = [c] ∧ d ≠ '\n' ∧ d ≠ '\r' := by
  unfold escapeLetter? at h
  split at h <;> cases h <;> decide

theorem ne_of_escapeLetter? (hc : escapeLetter? c = none) (hd : escapeLetter? d ≠ none) :
    c ≠ d := by
  rintro rfl
  exact hd hc

theorem escapeLetter?_mark (style : QuoteStyle) : escapeLetter? style.mark ≠ none := by
  cases style <;> decide

/-- A character is written as an escape, or as it is. -/
theorem encodeChar_cases (c : Char) :
    (∃ d, escapeLetter? c = some d ∧ encodeChar c = ['\\', d]) ∨
      (escapeLetter? c = none ∧ encodeChar c = [c]) := by
  unfold encodeChar
  cases escapeLetter? c with
  | some d => exact .inl ⟨d, rfl, rfl⟩
  | none => exact .inr ⟨rfl, rfl⟩

/-- Escapes are read back. -/
theorem decode_encode (cs : List Char) : decode (encode cs) = cs := by
  induction cs with
  | nil => exact decode_nil
  | cons c cs ih =>
    rw [encode_cons]
    obtain ⟨d, hletter, hchar⟩ | ⟨hplain, hchar⟩ := encodeChar_cases c
    · obtain ⟨hvalue, hfeed, -⟩ := unescape_of_escapeLetter? hletter
      rw [hchar, List.cons_append, List.singleton_append, decode_escape hfeed, hvalue, ih,
        List.singleton_append]
    · have hback : c ≠ '\\' := ne_of_escapeLetter? hplain (by decide)
      rw [hchar, List.singleton_append, decode_cons hback, ih]

/-- No quotes stand between the quotes, except behind a backslash. -/
theorem untilQuotes?_encode (style : QuoteStyle) (cs rest : List Char) :
    untilQuotes? style.quotes (encode cs ++ (style.quotes ++ rest)) = some (encode cs) := by
  induction cs with
  | nil => exact untilQuotes?_quotes style rest
  | cons c cs ih =>
    rw [encode_cons, List.append_assoc]
    obtain ⟨d, -, hchar⟩ | ⟨hplain, hchar⟩ := encodeChar_cases c
    · rw [hchar, List.cons_append, List.singleton_append, untilQuotes?_escape, ih]
      rfl
    · have hback : c ≠ '\\' := ne_of_escapeLetter? hplain (by decide)
      have hmark : ¬ style.quotes <+: c :: (encode cs ++ (style.quotes ++ rest)) := by
        obtain ⟨more, hmore⟩ := style.exists_quotes_eq_cons
        rw [hmore]
        exact fun hquotes => ne_of_escapeLetter? hplain (escapeLetter?_mark style)
          (List.cons_prefix_cons.1 hquotes).1.symm
      rw [hchar, List.singleton_append, untilQuotes?_cons hback hmark, ih]
      rfl

/-- No line ends in a text with escapes. -/
theorem not_mem_encode (cs : List Char) : '\n' ∉ encode cs ∧ '\r' ∉ encode cs := by
  have hchar (c : Char) : '\n' ∉ encodeChar c ∧ '\r' ∉ encodeChar c := by
    obtain ⟨d, hletter, hchar⟩ | ⟨hplain, hchar⟩ := encodeChar_cases c
    · obtain ⟨-, hfeed, hreturn⟩ := unescape_of_escapeLetter? hletter
      rw [hchar]
      simp [hfeed.symm, hreturn.symm]
    · have hfeed : c ≠ '\n' := ne_of_escapeLetter? hplain (by decide)
      have hreturn : c ≠ '\r' := ne_of_escapeLetter? hplain (by decide)
      rw [hchar]
      simp [hfeed.symm, hreturn.symm]
  constructor
  · intro hmem
    obtain ⟨c, -, hc⟩ := List.mem_flatMap.1 hmem
    exact (hchar c).1 hc
  · intro hmem
    obtain ⟨c, -, hc⟩ := List.mem_flatMap.1 hmem
    exact (hchar c).2 hc

/-- A text with escapes does not begin with a quote. -/
theorem not_prefix_encode {rest : List Char} (cs : List Char) (hstyle : style.isTriple = false)
    (hrest : Stops (· = style.mark) rest) :
    ¬ [style.mark, style.mark] <+: encode cs ++ (style.quotes ++ rest) := by
  have hquotes : style.quotes = [style.mark] := by
    rw [QuoteStyle.quotes, hstyle]
    rfl
  rw [hquotes]
  cases cs with
  | nil =>
    rintro ⟨more, hmore⟩
    obtain rfl : style.mark :: more = rest := (List.cons.inj hmore).2
    simpa using hrest style.mark rfl
  | cons c cs =>
    rw [encode_cons]
    obtain ⟨d, -, hchar⟩ | ⟨hplain, hchar⟩ := encodeChar_cases c
    · rw [hchar]
      exact fun hprefix => mark_ne_backslash style (List.cons_prefix_cons.1 hprefix).1
    · rw [hchar]
      exact fun hprefix => ne_of_escapeLetter? hplain (escapeLetter?_mark style)
        (List.cons_prefix_cons.1 hprefix).1.symm

end Escapes

/-- A text that is written as a string is read as this text. -/
theorem reads_enclose {table : LineTable} {style : QuoteStyle} {rest : List Char} {line : Nat}
    {brackets : Brackets} {outer : List Activation} {blocks : BlockStack}
    {last : Option (Kind × Nat)} (cs : List Char) (hrest : Stops (· = style.mark) rest) :
    Reads table (.inside (style.enclose cs ++ rest) line brackets outer blocks last)
      [(.string, .text cs)] (.inside rest line brackets outer blocks (some (.string, line))) := by
  have hfeed := (not_mem_encode cs).1
  have hread : Reads table
      (.inside (style.quotes ++ (encode cs ++ (style.quotes ++ rest))) line brackets outer blocks
        last) [(.string, .text (decode (encode cs)))]
      (.inside rest (line + (encode cs).count '\n') brackets outer blocks
        (some (.string, line + (encode cs).count '\n'))) :=
    reads_string (fun hstyle => not_prefix_encode cs hstyle hrest)
      (untilQuotes?_encode style cs rest) (.inr hfeed)
  rw [List.count_eq_zero.2 hfeed, decode_encode] at hread
  rw [QuoteStyle.enclose, List.append_assoc, List.append_assoc]
  exact hread

/-! ## Attributes -/

/-- A line that assigns a string to an attribute. -/
def stringLine (name : FreeName) (style : QuoteStyle) (cs : List Char) : List Char :=
  name.chars ++ ' ' :: '=' :: ' ' :: style.enclose cs

section Lines

variable {table : LineTable} {indent inner : Nat} {outer blocks : BlockStack}
  {more : List (List Char)}

/-- No such line is a directive, even if its name is `import`. -/
theorem directive_stringLine (name : FreeName) (indent : Nat) (rest : List Char) :
    directive (List.replicate indent ' ' ++ (name.chars ++ ' ' :: '=' :: rest)) = none :=
  directive_append indent name.shape (stops_cons rfl) fun _ => stops_cons rfl

/-- An attribute with a string is a member of the innermost block. -/
theorem passes_stringLine (name : FreeName) (style : QuoteStyle) (cs : List Char)
    (h : IsOpen indent inner outer blocks) (hle : indent ≤ inner) :
    Passes table blocks [indented inner (stringLine name style cs)] more
      [(.attributeName, .text name.chars), (.string, .text cs)] (IsOpen indent inner outer) := by
  obtain ⟨blocks', hcheck, hopen⟩ := h.exists_checkMember hle
  obtain ⟨frame, rfl, -, -⟩ := h
  refine passes_word name.shape (directive_stringLine name inner _) fun line last _ hwidth _ => ?_
  rw [← hwidth] at hcheck
  let behind := style.enclose cs ++ '\n' :: unlines more
  have hblank : Stops isBlank behind := by
    obtain ⟨quotes, hquotes⟩ := style.exists_quotes_eq_cons
    have hbehind : behind = style.mark :: (quotes ++ (encode cs ++ style.quotes) ++
        '\n' :: unlines more) := by
      simp only [behind, QuoteStyle.enclose, hquotes, List.cons_append]
    rw [hbehind]
    exact stops_cons (not_isBlank_mark style)
  have hname : Reads table
      (.between (name.chars ++ ([' ', '=', ' '] ++ behind)) line (frame :: outer) last)
      [(.attributeName, .text name.chars)]
      (.inside behind line {} (List.replicate blocks'.length .block) blocks'
        (some (.attributeName, line))) :=
    reads_attributeName [' ', '=', ' '] name.shape name.free (stops_cons rfl)
      (directive_stringLine name 0 _) (assignment_append hblank) (by decide) hcheck
  have hstring : Reads table
      (.inside behind line {} (List.replicate blocks'.length .block) blocks'
        (some (.attributeName, line))) [(.string, .text cs)]
      (.between (unlines more) (line + 1) blocks' (some (.string, line))) :=
    (reads_enclose cs (stops_cons (by cases style <;> rfl))).trans (reads_expressionNewline rfl)
  exact ⟨blocks', some (.string, line), hopen, isPast_some _ line, hname.trans hstring⟩

end Lines

/-! ## The round trip -/

theorem not_mem_stringLine {name : FreeName} {style : QuoteStyle} {cs : List Char} {indent : Nat}
    {c : Char} (hencode : c ∉ encode cs) (hname : continuesName c = false)
    (hother : c ∉ [' ', '=', '\x27', '"']) : c ∉ indented indent (stringLine name style cs) := by
  simp only [List.mem_cons, List.not_mem_nil, or_false, not_or] at hother
  obtain ⟨hspace, hequals, hsingle, hdouble⟩ := hother
  have hquotes : c ∉ style.quotes := by
    intro hmem
    have hmark : c = style.mark := List.eq_of_mem_replicate hmem
    cases style with
    | single | tripleSingle => exact hsingle hmark
    | double | tripleDouble => exact hdouble hmark
  have hchars : c ∉ name.chars := fun hmem => by
    simp [continuesName_of_isIdentifier name.shape c hmem] at hname
  have hblanks : c ∉ List.replicate indent ' ' :=
    fun hmem => hspace (List.eq_of_mem_replicate hmem)
  simp [indented, stringLine, QuoteStyle.enclose, hblanks, hchars, hspace, hequals, hquotes,
    hencode]

theorem isPlain_stringLine (name : FreeName) (style : QuoteStyle) (cs : List Char) (indent : Nat) :
    IsPlain (indented indent (stringLine name style cs)) where
  lineFeed := not_mem_stringLine (not_mem_encode cs).1 rfl (by decide)
  carriageReturn := not_mem_stringLine (not_mem_encode cs).2 rfl (by decide)
  directive := by
    rw [Import.Directive.ofLine?, indented, stringLine, directive_stringLine]

/-- The lines of a block with an attribute that is a string. -/
def stringBlock (style : QuoteStyle) (cs : List Char) : List (List Char) :=
  [['F', 'o', 'o'], indented 2 (stringLine ⟨['s'], rfl, rfl⟩ style cs), endName]

theorem isPlain_of_mem_stringBlock {style : QuoteStyle} {cs : List Char} :
    ∀ line ∈ stringBlock style cs, IsPlain line := by
  simp only [stringBlock, List.forall_mem_cons]
  have hname : IsNamed ['F', 'o', 'o'] [] := isNamed_nil rfl
  exact ⟨hname.isPlain 0, isPlain_stringLine _ style cs 2, isNamed_endName.isPlain 0, by simp⟩

theorem passes_stringBlock (table : LineTable) (style : QuoteStyle) (cs : List Char) :
    Passes table [] (stringBlock style cs) []
      [(.className, .text ['F', 'o', 'o']), (.attributeName, .text ['s']), (.string, .text cs),
        (.blockEnd, .nothing)] fun blocks => blocks = [] := by
  let name : FreeName := ⟨['s'], rfl, rfl⟩
  let header : Header := { owner := ⟨['F', 'o', 'o'], rfl, rfl, rfl⟩, name := none }
  let lines := [indented 2 (stringLine name style cs), endName]
  have hheader : Passes table [] [indented 0 header.text] lines header.entries (IsOpen 0 2 []) := by
    refine passes_header header rfl fun line hahead => ?_
    obtain ⟨found, hfound, hindent, -⟩ :=
      hahead.exists_nextContent fun placed => hasContent_indented name.shape
    refine ⟨(found.indent, found.isEnd), by rw [hfound, Option.map_some], fun _ => ?_⟩
    rw [hindent]
    exact indentWidth_indented name.shape
  have hlines : ∀ opened, IsOpen 0 2 [] opened → Passes table opened lines []
      [(.attributeName, .text ['s']), (.string, .text cs), (.blockEnd, .nothing)]
      fun blocks => blocks = [] :=
    fun opened hopened => (passes_stringLine name style cs hopened (Nat.zero_le 2)).append
      fun _ h => passes_blockEnd h
  exact hheader.append hlines

/-- Line feeds between lines come to the same as one behind each of them, if the last line is not
empty. -/
theorem Text.normalizeNewlines_joinWith {lines : List (List Char)} {last : List Char}
    (hplain : ∀ line ∈ lines, IsPlain line) (hsome : lines.getLast? = some last) (hne : last ≠ []) :
    normalizeNewlines (joinWith ['\n'] lines) = normalizeNewlines (unlines lines) := by
  obtain ⟨lines, rfl⟩ := List.getLast?_eq_some_iff.1 hsome
  have hlast : '\n' ∉ last := (hplain last (by simp)).lineFeed
  have hunlines : unlines (lines ++ [last]) = unlines lines ++ last ++ ['\n'] := by
    simp [unlines]
  have hreturn : '\r' ∉ unlines (lines ++ [last]) :=
    carriageReturn_not_mem_unlines fun line hline => (hplain line hline).carriageReturn
  rw [normalizeNewlines_unlines (fun line hline => (hplain line hline).carriageReturn)
    fun line hline => (hplain line hline).lineFeed, joinWith_append_singleton, hunlines]
  rw [hunlines] at hreturn
  rw [normalizeNewlines_of_not_mem fun hmem => hreturn (List.mem_append_left _ hmem),
    closeLastLine_append _ hne hlast]

/-- Every text can be written as a string, between the quotes of any style: as the attribute of
a block it is found again.  The last line of the block may be closed or not. -/
theorem tokenize_stringBlock (tree : Files.FileTree) (config : Config) (origin : Files.Path)
    (style : QuoteStyle) (cs : List Char) :
    ∃ tokens, tokenize tree config (joinWith ['\n'] (stringBlock style cs)) origin = .ok tokens ∧
      tokenize tree config (unlines (stringBlock style cs)) origin = .ok tokens ∧
      tokens.map Token.entry =
        [(.className, .text ['F', 'o', 'o']), (.attributeName, .text ['s']), (.string, .text cs),
          (.blockEnd, .nothing), (.endOfText, .nothing)] := by
  obtain ⟨tokens, htokens, hentries⟩ := tokenize_of_passes tree config origin
    isPlain_of_mem_stringBlock (passes_stringBlock · style cs)
    (.cons_cons rfl (.cons_cons rfl (.cons_cons rfl (.cons_cons rfl (.singleton _)))))
  refine ⟨tokens, ?_, htokens, hentries⟩
  rw [tokenize, Source.ofText_congr tree config origin
    (normalizeNewlines_joinWith isPlain_of_mem_stringBlock rfl (List.cons_ne_nil _ _))]
  exact htokens

end BlockLexer
