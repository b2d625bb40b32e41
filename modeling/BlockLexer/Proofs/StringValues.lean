import BlockLexer.Proofs.Indented
import BlockLexer.Proofs.Places

/-!
# The values of strings

A string is cut into parts by the rules of its style, and the assembly joins what the parts
stand for, with a flag that carries over from one part to the next.  This module says that
both together read the string from left to right in one pass.

* `untilQuotes?` finds what stands between the quotes, `decode` is the one pass over it, and
  `stringValue?` is the value by the letter in front of the quotes.
* `IsPartOf` is one part of a string and the characters that it takes, and `PartsOf` are all
  parts in a row: `PartsOf.untilQuotes?_eq` says where they end, and `PartsOf.joined_false`
  what they are joined to.
* `Scan.isPartOf_of_step` is one step in a string, and `Scan.exists_content_of_run` a run.
* `IsLiteral` is a token that is written as a string, and `Lexer.isLiteral_of_yields` says so
  of all strings that a lexer yields.
-/

namespace BlockLexer

open Text Pattern

/-! ## Reading from left to right -/

/-- What stands in front of the first quotes.  A backslash and the character behind it belong
together, so that no quotes begin with either of them. -/
def untilQuotes? (quotes : List Char) : List Char → Option (List Char)
  | '\\' :: c :: cs => (untilQuotes? quotes cs).map ('\\' :: c :: ·)
  | c :: cs =>
    if quotes.isPrefixOf (c :: cs) then some [] else (untilQuotes? quotes cs).map (c :: ·)
  | [] => none

/-- What a backslash and a character stand for that is no line feed. -/
def unescape : Char → List Char
  | 'n' => ['\n']
  | 't' => ['\t']
  | 'r' => ['\r']
  | '0' => ['\x00']
  | '\\' => ['\\']
  | '\x27' => ['\x27']
  | '"' => ['"']
  | c => ['\\', c]

/-- What a text with escapes stands for.  A backslash at the end of a line goes with the line
feed and with the blanks at the beginning of the next line. -/
def decode : List Char → List Char
  | '\\' :: c :: cs =>
    if c = '\n' then decode (cs.dropWhile isBlank) else unescape c ++ decode cs
  | c :: cs => c :: decode cs
  | [] => []
termination_by cs => cs.length
decreasing_by
  · have hle := (List.dropWhile_suffix isBlank : cs.dropWhile isBlank <:+ cs).length_le
    simp only [List.length_cons]
    omega
  · simp only [List.length_cons]
    omega
  · exact Nat.lt_succ_self _

/-- The value of a string, by the letter in front of its quotes and by what stands between
them. -/
def stringValue? (letter content : List Char) : Option (List Char) :=
  match letter.map Char.toLower with
  | [] => some (decode content)
  | ['r'] | ['b'] => some content
  | ['u'] => (readCodePoint? (decode content)).map fun c => [c]
  | _ => none

section Decoding

variable {quotes cs : List Char} {c : Char}

theorem untilQuotes?_escape (quotes : List Char) (c : Char) (cs : List Char) :
    untilQuotes? quotes ('\\' :: c :: cs) =
      (untilQuotes? quotes cs).map ('\\' :: c :: ·) := by
  rw [untilQuotes?]

theorem untilQuotes?_cons (hc : c ≠ '\\') (hquotes : ¬ quotes <+: c :: cs) :
    untilQuotes? quotes (c :: cs) = (untilQuotes? quotes cs).map (c :: ·) := by
  rw [untilQuotes?, if_neg (by simpa using hquotes)]
  rintro d ds rfl
  exact absurd rfl hc

@[simp] theorem decode_nil : decode [] = [] := by
  rw [decode]

theorem decode_escape (hc : c ≠ '\n') (cs : List Char) :
    decode ('\\' :: c :: cs) = unescape c ++ decode cs := by
  rw [decode, if_neg hc]

theorem decode_break (cs : List Char) :
    decode ('\\' :: '\n' :: cs) = decode (cs.dropWhile isBlank) := by
  rw [decode, if_pos rfl]

theorem decode_cons (hc : c ≠ '\\') (cs : List Char) : decode (c :: cs) = c :: decode cs := by
  rw [decode]
  rintro d ds rfl
  exact absurd rfl hc

theorem decode_append {word : List Char} (h : '\\' ∉ word) (cs : List Char) :
    decode (word ++ cs) = word ++ decode cs := by
  induction word with
  | nil => rfl
  | cons c word ih =>
    obtain ⟨hc, hword⟩ := not_or.1 (mt List.mem_cons.2 h)
    rw [List.cons_append, decode_cons (Ne.symm hc), ih hword, List.cons_append]

theorem untilQuotes?_quotes (style : QuoteStyle) (cs : List Char) :
    untilQuotes? style.quotes (style.quotes ++ cs) = some [] := by
  obtain ⟨more, hmore⟩ := style.exists_quotes_eq_cons
  rw [hmore, List.cons_append, untilQuotes?, if_pos (by simp)]
  rintro d ds heq
  cases style <;> cases heq

/-- Neither quotes nor a backslash stand in front of the quotes. -/
theorem untilQuotes?_append {style : QuoteStyle} {word : List Char}
    (hword : ∀ c ∈ word, isStringText style c = true) (cs : List Char) :
    untilQuotes? style.quotes (word ++ cs) = (untilQuotes? style.quotes cs).map (word ++ ·) := by
  induction word with
  | nil => simp
  | cons c word ih =>
    obtain ⟨hc, hword⟩ := List.forall_mem_cons.1 hword
    simp only [isStringText, Bool.and_eq_true, decide_eq_true_eq] at hc
    obtain ⟨⟨hmark, hback⟩, -⟩ := hc
    have hquotes : ¬ style.quotes <+: c :: (word ++ cs) := by
      obtain ⟨more, hmore⟩ := style.exists_quotes_eq_cons
      rw [hmore, List.cons_prefix_cons]
      rintro ⟨hsame, -⟩
      exact hmark hsame.symm
    rw [List.cons_append, untilQuotes?_cons hback hquotes, ih hword, Option.map_map]
    rfl

end Decoding

/-! ## Parts of a string -/

/-- A part of a string takes these characters in front of others. -/
inductive IsPartOf (style : QuoteStyle) (raw : Bool) (piece : Piece) :
    List Char → List Char → Prop
  | rawEscape {c : Char} {left : List Char} (hraw : raw = true)
      (hkind : piece.kind = .stringEscape) (hvalue : piece.value = .text ['\\', c]) :
      IsPartOf style raw piece ['\\', c] left
  | lineBreak {left : List Char} (hraw : raw = false) (hkind : piece.kind = .stringLineBreak) :
      IsPartOf style raw piece ['\\', '\n'] left
  | escape {c : Char} {left : List Char} (hraw : raw = false) (hc : c ≠ '\n')
      (hkind : piece.kind = .stringEscape) (hvalue : piece.value = .text (unescape c)) :
      IsPartOf style raw piece ['\\', c] left
  | text {word left : List Char} (hkind : piece.kind = .stringText)
      (hvalue : piece.value = .text word) (hword : ∀ c ∈ word, isStringText style c = true)
      (hstop : Stops (isStringText style) left) : IsPartOf style raw piece word left
  | quote {left : List Char} (hkind : piece.kind = .stringText)
      (hvalue : piece.value = .text [style.mark])
      (hopen : ¬ style.quotes <+: style.mark :: left) :
      IsPartOf style raw piece [style.mark] left

/-- The parts of a string take these characters in front of others. -/
inductive PartsOf (style : QuoteStyle) (raw : Bool) (left : List Char) :
    List Piece → List Char → Prop
  | nil : PartsOf style raw left [] []
  | cons {part : Piece} {parts : List Piece} {taken content : List Char}
      (hpart : IsPartOf style raw part taken (content ++ left))
      (hparts : PartsOf style raw left parts content) :
      PartsOf style raw left (part :: parts) (taken ++ content)

section Parts

variable {style : QuoteStyle} {raw afterBreak : Bool} {part : Piece} {parts : List Piece}
  {taken content left after : List Char}

theorem mark_ne_backslash (style : QuoteStyle) : style.mark ≠ '\\' := by
  cases style <;> decide

theorem not_isBlank_mark (style : QuoteStyle) : isBlank style.mark = false := by
  cases style <;> decide

/-- A blank is no quote, no backslash and no line feed. -/
theorem isStringText_of_isBlank {c : Char} (h : isBlank c = true) (style : QuoteStyle) :
    isStringText style c = true := by
  simp only [isBlank, Bool.or_eq_true, decide_eq_true_eq] at h
  rcases h with rfl | rfl <;> cases style <;> decide

/-- The quotes do not begin within a part. -/
theorem IsPartOf.untilQuotes?_eq (h : IsPartOf style raw part taken left) :
    untilQuotes? style.quotes (taken ++ left) =
      (untilQuotes? style.quotes left).map (taken ++ ·) := by
  cases h with
  | rawEscape | lineBreak | escape => exact untilQuotes?_escape _ _ _
  | text _ _ hword _ => exact untilQuotes?_append hword left
  | quote _ _ hopen => exact untilQuotes?_cons (mark_ne_backslash style) hopen

/-- The parts of a string end where its quotes begin. -/
theorem PartsOf.untilQuotes?_eq (h : PartsOf style raw (style.quotes ++ after) parts content) :
    untilQuotes? style.quotes (content ++ (style.quotes ++ after)) = some content := by
  induction h with
  | nil => exact untilQuotes?_quotes style after
  | cons hpart _ ih =>
    rw [List.append_assoc, hpart.untilQuotes?_eq, ih]
    rfl

/-- In a raw string a part stands for its own characters. -/
theorem IsPartOf.chunk_of_raw (h : IsPartOf style true part taken left) :
    Assembly.chunk false part = taken ∧ part.kind ≠ .stringLineBreak := by
  cases h with
  | rawEscape _ hkind hvalue | text hkind hvalue _ _ | quote hkind hvalue _ =>
    simp [Assembly.chunk, hkind, hvalue, Value.chars?]
  | lineBreak hraw | escape hraw => cases hraw

/-- Between raw quotes nothing is changed. -/
theorem PartsOf.joined_of_raw (h : PartsOf style true left parts content) :
    Assembly.joined false parts = content := by
  induction h with
  | nil => rfl
  | cons hpart _ ih =>
    obtain ⟨hchunk, hkind⟩ := hpart.chunk_of_raw
    rw [Assembly.joined, hchunk, decide_eq_false hkind, ih]

/-- Behind a text that goes on up to a quote or a backslash no blanks stand. -/
theorem dropWhile_isBlank_of_stop (hstop : Stops (isStringText style) (content ++ left)) :
    content.dropWhile isBlank = content := by
  cases content with
  | nil => rfl
  | cons c content =>
    refine List.dropWhile_cons_of_neg fun hblank => ?_
    cases (hstop c rfl).symm.trans (isStringText_of_isBlank hblank style)

/-- The one pass over a text that ends in front of a quote or a backslash.  The blanks behind a
line break end with it, even if it is made of blanks. -/
theorem decode_text {word : List Char} (hword : ∀ c ∈ word, isStringText style c = true)
    (hstop : Stops (isStringText style) (content ++ left)) (afterBreak : Bool) :
    decode (if afterBreak then (word ++ content).dropWhile isBlank else word ++ content) =
      (if afterBreak then word.dropWhile isBlank else word) ++ decode content := by
  have hback : '\\' ∉ word := by
    intro hmem
    simpa [isStringText] using hword _ hmem
  cases afterBreak with
  | false => exact decode_append hback content
  | true =>
    have hback' : '\\' ∉ word.dropWhile isBlank :=
      fun hmem => hback ((List.dropWhile_suffix isBlank).subset hmem)
    have hdrop : (word ++ content).dropWhile isBlank = word.dropWhile isBlank ++ content := by
      rw [List.dropWhile_append]
      split
      · next hempty =>
        rw [dropWhile_isBlank_of_stop hstop, List.isEmpty_iff.1 hempty, List.nil_append]
      · rfl
    rw [if_pos rfl, if_pos rfl, hdrop, decode_append hback']

/-- The one pass over a part: what it adds to the string, and how the pass goes on behind it. -/
theorem IsPartOf.decode_eq (h : IsPartOf style false part taken (content ++ left))
    (afterBreak : Bool) :
    decode (if afterBreak then (taken ++ content).dropWhile isBlank else taken ++ content) =
      Assembly.chunk afterBreak part ++
        decode (if part.kind = .stringLineBreak then content.dropWhile isBlank else content) := by
  have hfilled {c : Char} (hc : isBlank c = false) (cs : List Char) :
      (if afterBreak then (c :: cs).dropWhile isBlank else c :: cs) = c :: cs := by
    cases afterBreak with
    | false => rfl
    | true => exact List.dropWhile_cons_of_neg (by simp [hc])
  cases h with
  | rawEscape hraw => cases hraw
  | lineBreak _ hkind =>
    have hchunk : Assembly.chunk afterBreak part = [] := by simp [Assembly.chunk, hkind]
    rw [List.cons_append, hfilled (by decide), List.singleton_append, decode_break, hchunk,
      if_pos hkind, List.nil_append]
  | @escape c _ _ hc hkind hvalue =>
    have hchunk : Assembly.chunk afterBreak part = unescape c := by
      simp [Assembly.chunk, hkind, hvalue, Value.chars?]
    rw [List.cons_append, hfilled (by decide), List.singleton_append, decode_escape hc, hchunk,
      if_neg (by simp [hkind])]
  | text hkind hvalue hword hstop =>
    have hchunk : Assembly.chunk afterBreak part =
        if afterBreak then taken.dropWhile isBlank else taken := by
      simp [Assembly.chunk, hkind, hvalue, Value.chars?]
    have hgoes : part.kind ≠ .stringLineBreak := by simp [hkind]
    rw [decode_text hword hstop, hchunk, if_neg hgoes]
  | quote hkind hvalue _ =>
    have hmark := not_isBlank_mark style
    have hchunk : Assembly.chunk afterBreak part = [style.mark] := by
      cases afterBreak <;> simp [Assembly.chunk, hkind, hvalue, Value.chars?, hmark]
    rw [List.singleton_append, hfilled hmark, decode_cons (mark_ne_backslash style), hchunk,
      if_neg (by simp [hkind]), List.singleton_append]

/-- The parts of a string are joined to what the one pass reads. -/
theorem PartsOf.joined_eq (h : PartsOf style false left parts content) (afterBreak : Bool) :
    Assembly.joined afterBreak parts =
      decode (if afterBreak then content.dropWhile isBlank else content) := by
  induction h generalizing afterBreak with
  | nil => cases afterBreak <;> simp [Assembly.joined]
  | cons hpart _ ih =>
    rw [hpart.decode_eq, Assembly.joined, ih]
    simp only [decide_eq_true_eq]

theorem PartsOf.joined_false (h : PartsOf style raw left parts content) :
    Assembly.joined false parts = if raw then content else decode content := by
  cases raw with
  | true => exact h.joined_of_raw
  | false => exact h.joined_eq false

end Parts

/-! ## Steps in a string -/

namespace Scan

variable {table : LineTable} {s t u : Scan} {style : QuoteStyle} {raw : Bool} {line column : Nat}
  {outer : List Activation} {piece : Piece} {pieces : List Piece} {m : Match} {left : List Char}

/-- The rules of a string. -/
theorem mem_rules_string {rule : Rule} (h : rule ∈ (Mode.string style).rules) :
    rule = .escape ∨ rule = .closeString style ∨ rule = .stringText style ∨
      rule = .loneQuote style ∧ style.isTriple = true := by
  unfold Mode.rules at h
  dsimp only at h
  split at h
  · next htriple => simpa [htriple] using h
  · simp only [List.mem_cons, List.not_mem_nil, or_false] at h
    rcases h with h | h | h
    · exact .inl h
    · exact .inr (.inl h)
    · exact .inr (.inr (.inl h))

/-- What a character behind a backslash stands for, if it is no line feed. -/
theorem decodeEscape_eq {c : Char} (hc : c ≠ '\n') :
    decodeEscape c = (.stringEscape, unescape c) := by
  unfold unescape
  split <;> simp_all [decodeEscape]

/-- An escape is a backslash and a character. -/
theorem exists_of_match?_escape {cs : List Char} (h : Rule.escape.match? cs = some m) :
    ∃ c, m.lexeme = ['\\', c] := by
  obtain ⟨left, hcut, -⟩ :=
    Match.exists_append_of_ofPattern ((isCut_one _).seq (isCut_one _)) h
  obtain ⟨back, char, between, hback, hchar, hlexeme⟩ := exists_of_seq_eq_some hcut
  obtain ⟨_, hc, rfl, -⟩ := exists_of_one_eq_some hback
  obtain ⟨c, -, rfl, -⟩ := exists_of_one_eq_some hchar
  exact ⟨c, by rw [hlexeme, of_decide_eq_true hc]; rfl⟩

/-- What an escape stands for depends on whether the string is raw. -/
theorem isPartOf_of_takeEscape {a : Scan} {c : Char}
    (hact : s.act table .escape m = (a, .ok (some piece))) (hraw : s.inRawString = raw)
    (hlexeme : m.lexeme = ['\\', c]) : IsPartOf style raw piece m.lexeme left := by
  cases accepts_of_act hact with
  | escape =>
  have hescaped : s.escaped m = if raw then (.stringEscape, m.lexeme) else decodeEscape c := by
    rw [escaped, hlexeme, hraw]
  rw [hescaped, hlexeme]
  cases raw with
  | true => exact .rawEscape rfl rfl rfl
  | false =>
    rw [if_neg Bool.false_ne_true]
    by_cases hc : c = '\n'
    · subst hc
      exact .lineBreak rfl rfl
    · rw [decodeEscape_eq hc]
      exact .escape rfl hc rfl rfl

/-- The text between quotes and escapes is taken as far as it goes. -/
theorem isPartOf_of_text {cs : List Char} (hmatch : (Rule.stringText style).match? cs = some m)
    (hrest : cs = m.lexeme ++ left) (hkind : piece.kind = .stringText)
    (hvalue : piece.value = .text m.lexeme) : IsPartOf style raw piece m.lexeme left := by
  obtain ⟨rest, hcut, hsplit⟩ := Match.exists_append_of_ofPattern (isCut_many1 _) hmatch
  obtain ⟨-, hcut⟩ := Option.ite_none_left_eq_some.1 hcut
  obtain ⟨hword, hstop⟩ := Prod.mk.inj (Option.some.inj hcut)
  obtain rfl : rest = left := List.append_cancel_left (hsplit.symm.trans hrest)
  refine .text hkind hvalue (fun c hc => ?_) (hstop ▸ stops_dropWhile _ cs)
  rw [← hword] at hc
  exact List.mem_takeWhile_imp hc

theorem match?_closeString (style : QuoteStyle) (left : List Char) :
    (Rule.closeString style).match? (style.quotes ++ left) = some { lexeme := style.quotes } := by
  simp [Rule.match?, Match.ofPattern, word]

/-- A quote stands for itself where no string is closed. -/
theorem isPartOf_of_quote {cs : List Char} (hmatch : (Rule.loneQuote style).match? cs = some m)
    (hrest : cs = m.lexeme ++ left) (hclose : Rule.take? cs (.closeString style) = none)
    (hkind : piece.kind = .stringText) (hvalue : piece.value = .text m.lexeme) :
    IsPartOf style raw piece m.lexeme left := by
  have hmark : m.lexeme = [style.mark] := by
    obtain ⟨c, left, hc, hlexeme, -⟩ := Match.exists_of_one hmatch
    rw [hlexeme, of_decide_eq_true hc]
  rw [hmark] at hrest hvalue ⊢
  refine .quote hkind hvalue fun hquotes => ?_
  obtain ⟨more, hmore⟩ := hquotes
  obtain ⟨tail, htail⟩ := style.exists_quotes_eq_cons
  rw [hrest, List.singleton_append, ← hmore, Rule.take?, match?_closeString] at hclose
  simp [htail] at hclose

/-- A part of a string that a step yields is read off the text. -/
theorem isPartOf_of_step (hmodes : s.modes = .string style raw line column :: outer)
    (hstep : s.step table = (t, some (.ok piece))) (hpart : piece.kind.IsPart) :
    ∃ taken, s.rest = taken ++ t.rest ∧ IsPartOf style raw piece taken t.rest := by
  have hmode := mode_eq_string hmodes
  rcases exists_of_step (some piece) hstep with ⟨-, -, hfinish⟩ | ⟨rule, m, a, left, hselect, hrest,
    hact, -, rfl, -⟩
  · rw [finish, hmodes] at hfinish
    cases hfinish
  refine ⟨m.lexeme, hrest, ?_⟩
  have hmatch := Mode.match?_of_select hselect
  have hmem := mem_rules_of_select hselect
  rw [hmode] at hmem hselect
  rcases mem_rules_string hmem with rfl | rfl | rfl | ⟨rfl, htriple⟩
  · obtain ⟨c, hlexeme⟩ := exists_of_match?_escape hmatch
    have hraw : s.inRawString = raw := by rw [inRawString, hmodes]
    exact isPartOf_of_takeEscape hact hraw hlexeme
  · cases hact
    cases hpart
  · cases hact
    exact isPartOf_of_text hmatch hrest rfl rfl
  · have hclose : Rule.take? s.rest (.closeString style) = none :=
      Mode.take?_eq_none_of_select hselect (by cases style <;> first | decide | cases htriple)
        (by cases style <;> decide)
    cases hact
    exact isPartOf_of_quote hmatch hrest hclose rfl rfl

/-- Every rule of a string yields something. -/
theorem not_quiet_in_string (hmodes : s.modes = .string style raw line column :: outer) :
    s.step table ≠ (t, none) := by
  intro hstep
  rcases exists_of_step none hstep with ⟨-, -, hfinish⟩ | ⟨rule, m, a, left, hselect, -, hact, -⟩
  · cases hfinish
  have hmem := mem_rules_of_select hselect
  rw [mode_eq_string hmodes] at hmem
  rcases mem_rules_string hmem with rfl | rfl | rfl | ⟨rfl, -⟩ <;> cases hact

/-- A run over parts of a string reads them off the text. -/
theorem exists_content_of_run (hrun : Run table s pieces u)
    (hmodes : s.modes = .string style raw line column :: outer)
    (hparts : ∀ part ∈ pieces, part.kind.IsPart) :
    ∃ content, s.rest = content ++ u.rest ∧ PartsOf style raw u.rest pieces content := by
  induction hrun with
  | refl s => exact ⟨[], rfl, .nil⟩
  | quiet _ hstep _ _ => exact absurd hstep (not_quiet_in_string hmodes)
  | @piece s t t' u piece pieces hs hstep hsettles hrest ih =>
    obtain ⟨hpart, hparts⟩ := List.forall_mem_cons.1 hparts
    obtain ⟨taken, htaken, hisPart⟩ := isPartOf_of_step hmodes hstep hpart
    have hmodes' : t'.modes = .string style raw line column :: outer :=
      (Run.piece hs hstep hsettles (.refl t')).modes_of_parts (by simpa using hpart) hmodes
    obtain ⟨content, hcontent, hpartsOf⟩ := ih hmodes' hparts
    rw [hsettles.rest_eq] at hcontent
    refine ⟨taken ++ content, ?_, .cons ?_ hpartsOf⟩
    · rw [htaken, hcontent, List.append_assoc]
    · rw [← hcontent]
      exact hisPart

/-- A string begins with a letter, which decides on its escapes, and with quotes. -/
theorem exists_letter_of_step (hs : s.isDone = false)
    (hstep : s.step table = (t, some (.ok piece))) (hkind : piece.kind = .stringStart style raw) :
    ∃ letter, IsLetter letter ∧ raw = isRawLetter letter ∧ piece.value = .text letter ∧
      s.rest = letter ++ (style.quotes ++ t.rest) ∧
      (style.isTriple = false → ¬ [style.mark, style.mark] <+: t.rest) := by
  obtain ⟨hmode, -⟩ := modes_of_stringStart hs hstep hkind
  rcases exists_of_step (some piece) hstep with ⟨-, -, hfinish⟩ | ⟨rule, m, a, left, hselect, hrest,
    hact, -, rfl, -⟩
  · obtain ⟨_, _, hmodes⟩ := exists_of_mode_eq_expression hmode
    rw [finish, hmodes] at hfinish
    dsimp only at hfinish
    split at hfinish <;> cases hfinish
  have hmem := mem_rules_of_select hselect
  rw [hmode] at hmem hselect
  obtain rfl := eq_openString_of_act hmem hact hkind
  obtain ⟨letter, hletter, rfl⟩ := exists_letter_of_match? (Mode.match?_of_select hselect)
  rw [List.append_assoc] at hrest
  rw [hrest] at hselect
  cases hact
  cases hkind
  exact ⟨letter, hletter, rfl, rfl, hrest, not_prefix_of_select hletter hselect⟩

end Scan

/-! ## Whole strings -/

/-- A token that is written as a string, with a letter in front of its quotes: `content` stands
between the quotes, `before` in front of the string and `after` behind it. -/
structure IsLiteral (text : List Char) (token : Token) (style : QuoteStyle)
    (before letter content after : List Char) : Prop where
  text : text = before ++ (letter ++ (style.quotes ++ (content ++ (style.quotes ++ after))))
  isLetter : IsLetter letter
  /-- Three quotes are not read as one that opens a string. -/
  single : style.isTriple = false →
    ¬ [style.mark, style.mark] <+: content ++ (style.quotes ++ after)
  start : token.span.start = byteSize before
  stop : token.span.stop = byteSize before +
    byteSize (letter ++ style.quotes ++ content ++ style.quotes)
  ends : untilQuotes? style.quotes (content ++ (style.quotes ++ after)) = some content
  value : ∃ chars, stringValue? letter content = some chars ∧ token.value = .text chars
  line : token.span.line =
    if style.isTriple then lineBehind (before ++ letter)
    else lineBehind (before ++ letter ++ style.quotes ++ content)

/-- The letters that leave escapes as they are, in either case. -/
theorem isRawLetter_iff {letter : List Char} (h : IsLetter letter) :
    isRawLetter letter = true ↔
      letter.map Char.toLower = ['r'] ∨ letter.map Char.toLower = ['b'] := by
  rcases h with rfl | ⟨c, hc, rfl⟩
  · decide
  · have hascii : ∀ n < 128, isRawLetter [Char.ofNat n] = true ↔
        [Char.ofNat n].map Char.toLower = ['r'] ∨ [Char.ofNat n].map Char.toLower = ['b'] := by
      decide
    have hlt : c.toNat < 128 := by
      rcases isAlpha_iff.1 hc with hrange | hrange <;> omega
    have hletter := hascii c.toNat hlt
    rwa [Char.ofNat_toNat] at hletter

/-- The letter is applied to what the one pass reads. -/
theorem stringValue?_of_applyLetter {letter content chars : List Char} (hletter : IsLetter letter)
    (h : Assembly.applyLetter letter (if isRawLetter letter then content else decode content) =
      .ok chars) : stringValue? letter content = some chars := by
  have hraw := isRawLetter_iff hletter
  unfold Assembly.applyLetter at h
  unfold stringValue?
  generalize letter.map Char.toLower = lower at h hraw ⊢
  split at h
  · rw [if_neg (by simp [hraw])] at h
    exact congrArg some (Except.ok.inj h)
  · rw [if_pos (by simp [hraw])] at h
    exact congrArg some (Except.ok.inj h)
  · rw [if_pos (by simp [hraw])] at h
    exact congrArg some (Except.ok.inj h)
  · rw [if_neg (by simp [hraw])] at h
    split at h
    · next c hc =>
      show (readCodePoint? (decode content)).map _ = _
      rw [hc]
      exact congrArg some (Except.ok.inj h)
    · cases h
  · cases h

theorem value_of_literal {style : QuoteStyle} {start stop : Piece} {letter content : List Char}
    {token : Token} (hletter : IsLetter letter) (hstart : start.value = .text letter)
    (h : Assembly.literal style start stop
      (if isRawLetter letter then content else decode content) = .ok token) :
    ∃ chars, stringValue? letter content = some chars ∧ token.value = .text chars := by
  unfold Assembly.literal at h
  rw [hstart] at h
  split at h
  · cases h
  · next chars hchars =>
    obtain rfl := Except.ok.inj h
    exact ⟨chars, stringValue?_of_applyLetter hletter hchars, rfl⟩

namespace Scan

variable {table : LineTable} {text : List Char} {s u : Scan} {pieces : List Piece} {token : Token}

/-- What stands in front of quotes behind a letter is the letter. -/
theorem letter_eq {style : QuoteStyle} {letter letter' left left' : List Char}
    (hletter : IsLetter letter) (hletter' : IsLetter letter')
    (h : letter ++ (style.quotes ++ left) = letter' ++ (style.quotes ++ left')) :
    letter' = letter ∧ left' = left := by
  have hleft := congrArg (List.dropWhile Char.isAlpha) h
  rw [dropWhile_letter hletter, dropWhile_letter hletter'] at hleft
  rw [hleft] at h
  exact ⟨(List.append_cancel_right h).symm, (List.append_cancel_left hleft).symm⟩

/-- No piece is a whole string. -/
theorem kind_ne_string_of_step {t : Scan} {piece : Piece}
    (hstep : s.step table = (t, some (.ok piece))) : piece.kind ≠ .token .string := by
  intro hkind
  obtain ⟨lexeme, more, hcuts, -⟩ := exists_cuts_of_step hstep (by simp [hkind])
  have hspelled := hcuts.spelled
  unfold BlockLexer.Spelled at hspelled
  rw [hkind] at hspelled
  exact hspelled

/-- A string that a run makes is written as one. -/
theorem exists_isLiteral_of_makes (hmakes : Makes pieces token) (hkind : token.kind = .string)
    (hrun : Run table s pieces u) (hstands : StandsIn text s) :
    ∃ style before letter content after,
      IsLiteral text token style before letter content after := by
  cases hmakes with
  | token hpiece =>
    obtain ⟨m, t, v, -, -, hstep, -⟩ := Run.uncons hrun
    exact absurd (hpiece.trans (congrArg _ hkind)) (kind_ne_string_of_step hstep)
  | @string start stop parts style raw token hstart hparts hstop hliteral =>
    rw [← List.append_nil (start :: parts ++ [stop])] at hrun
    obtain ⟨m, t₁, v₁, m', t, v, hquiet, hm, hopen, hsettles, hinner, hm', hclose, -, -⟩ :=
      Run.uncons_string hrun
    obtain ⟨letter, hletter, rfl, hvalue, hrest, hsingle⟩ := exists_letter_of_step hm hopen hstart
    obtain ⟨-, line, column, hmodes⟩ := modes_of_stringStart hm hopen hstart
    obtain ⟨content, hcontent, hpartsOf⟩ :=
      exists_content_of_run hinner (hsettles.same.1.trans hmodes) hparts
    -- The quotes behind the parts are those that close the string.
    obtain ⟨quotes, more, hcuts, -⟩ := exists_cuts_of_step hclose (by simp [hstop])
    obtain ⟨rfl, rfl⟩ := eq_quotes_of_cuts hcuts hstop
      (mode_of_parts hm hopen hstart hsettles hinner hparts)
    rw [hsettles.rest_eq, hcuts.rest, List.nil_append] at hcontent
    rw [hcuts.rest, List.nil_append] at hpartsOf
    rw [hcontent] at hrest hsingle
    -- The pieces in front of the parts and behind them say where the string stands.
    obtain ⟨letter', inner, hencloses⟩ :=
      exists_encloses hm hopen hsettles hinner hclose hstart hparts hstop
    have hsame := hencloses.rest.symm.trans hrest
    simp only [List.append_assoc] at hsame
    obtain ⟨rfl, hinner⟩ := letter_eq hencloses.isLetter hletter hsame
    obtain rfl := List.append_cancel_right hinner
    obtain ⟨before, htext, hposition⟩ := standsIn_of_run hquiet hstands
    obtain ⟨-, hspan⟩ := span_of_literal hliteral
    rw [hpartsOf.joined_false] at hliteral
    refine ⟨style, before, letter, content, t.rest, ?_, hletter, hsingle, ?_, ?_,
      hpartsOf.untilQuotes?_eq, value_of_literal hletter hvalue hliteral, ?_⟩
    · rw [htext, hrest]
    · rw [hspan, ← Position.offset_eq, ← hposition]
      exact hencloses.offset
    · rw [hspan, ← Position.offset_eq, ← hposition]
      exact hencloses.endOffset
    · rw [hspan]
      show (if style.isTriple = true then start.span.line else stop.span.line) = _
      rw [hencloses.line, hencloses.endLine, hposition, Position.line_eq]
      have hletterLine : letter.count '\n' = 0 := List.count_eq_zero.2 hletter.lineFeed_not_mem
      simp only [lineBehind, List.count_append, hletterLine]
      split <;> omega

end Scan

end BlockLexer
