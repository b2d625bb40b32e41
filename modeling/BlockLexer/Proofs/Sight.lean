import BlockLexer.Proofs.Select
import BlockLexer.Proofs.Spelling
import Mathlib.Data.List.TakeWhile

/-!
# What a rule sees

A rule looks at what comes next, but never beyond the end of the line, apart from the text
of a string that may run over several lines.  So what stands on the later lines has no
influence on the rule that is selected.

* `Pattern.SeesTo` says of a pattern that it does not look behind a character, and
  `Pattern.SeesLine` that it does not look behind the end of the line.
* `Lexeme.IsStop` are the two characters at which most lexemes stop: `Rule.match?_of_stop` says
  so of a rule, and `Rule.match?_of_line` of almost every rule and the end of the line.
* `Mode.select_of_line` is the rule that is selected.  If it is the text of a string, one
  character behind the match has to be the same.
-/

namespace BlockLexer

open Text Pattern Lexeme

/-! ## Patterns -/

namespace Pattern

variable {a b : Pattern} {p : Char → Bool} {stop : Char}

/-- What a pattern takes does not depend on what stands behind the first such character. -/
def SeesTo (c : Char) (a : Pattern) : Prop :=
  ∀ cs more more', c ∉ cs →
    (a (cs ++ c :: more)).map Prod.fst = (a (cs ++ c :: more')).map Prod.fst

/-- What a pattern takes does not depend on what stands behind the end of the line. -/
def SeesLine (a : Pattern) : Prop :=
  ∀ line more more', '\n' ∉ line →
    (a (line ++ '\n' :: more)).map Prod.fst = (a (line ++ '\n' :: more')).map Prod.fst

/-- A pattern that stops at a character does not see beyond it. -/
theorem StopsAt.seesTo (h : StopsAt stop a) : SeesTo stop a := by
  intro cs more more' hcs
  rw [h cs more hcs, h cs more' hcs, Option.map_map, Option.map_map]
  rfl

theorem map_fst_seq (a b : Pattern) (cs : List Char) :
    ((a.seq b) cs).map Prod.fst =
      (a cs).bind fun cut => ((b cut.2).map Prod.fst).map (cut.1 ++ ·) := by
  unfold Pattern.seq
  cases a cs with
  | none => rfl
  | some cut =>
    dsimp only [Option.bind_some]
    cases b cut.2 <;> rfl

/-- The last of the patterns in a row may take the character. -/
theorem StopsAt.seq_seesTo (ha : StopsAt stop a) (hcut : IsCut a) (hb : SeesTo stop b) :
    SeesTo stop (a.seq b) := by
  intro cs more more' hcs
  rw [map_fst_seq, map_fst_seq, ha cs more hcs, ha cs more' hcs]
  cases hx : a cs with
  | none => rfl
  | some cut =>
    obtain ⟨x, left⟩ := cut
    have hleft : stop ∉ left := by
      rw [hcut _ _ _ hx, List.mem_append, not_or] at hcs
      exact hcs.2
    dsimp only [Option.map_some, Option.bind_some]
    rw [hb left more more' hleft]

/-- One character, which may be the one at the end. -/
theorem seesTo_one (p : Char → Bool) : SeesTo stop (one p) := by
  intro cs more more' _
  cases cs with
  | nil =>
    simp only [List.nil_append, one]
    split <;> rfl
  | cons c cs =>
    simp only [List.cons_append, one]
    split <;> rfl

theorem stopsAt_word {w : List Char} (hw : stop ∉ w) : StopsAt stop (word w) := by
  intro cs more _
  unfold word
  rcases Nat.lt_or_ge cs.length w.length with hlt | hge
  · have hshort : cs.take w.length ≠ w := by
      intro hsame
      have hlength := congrArg List.length hsame
      rw [List.length_take] at hlength
      omega
    have hlong : (cs ++ stop :: more).take w.length ≠ w := by
      intro hsame
      obtain ⟨n, hn⟩ : ∃ n, w.length - cs.length = n + 1 :=
        Nat.exists_eq_succ_of_ne_zero (by omega)
      apply hw
      rw [← hsame, List.take_append, hn, List.take_succ_cons]
      exact List.mem_append_right _ List.mem_cons_self
    rw [if_neg hlong, if_neg hshort]
    rfl
  · rw [List.take_append_of_le_length hge, List.drop_append_of_le_length hge]
    split <;> rfl

theorem stopsAt_notBefore (hp : p stop = false) : StopsAt stop (notBefore p) := by
  intro cs more _
  cases cs with
  | nil => simp [notBefore, hp]
  | cons c cs =>
    simp only [notBefore, List.cons_append]
    split <;> rfl

end Pattern

/-! ## Lexemes -/

namespace Lexeme

/-- The characters at which every name, numeral and gap stops: the end of a line, and what
opens a comment. -/
def IsStop (c : Char) : Prop :=
  c = '\n' ∨ c = ';'

theorem IsStop.eq_false {c : Char} {p : Char → Bool} (hc : IsStop c) (hfeed : p '\n' = false)
    (hremark : p ';' = false) : p c = false := by
  rcases hc with rfl | rfl
  · exact hfeed
  · exact hremark

theorem isStop_lineFeed : IsStop '\n' := .inl rfl

variable {stop : Char}

theorem isLocal_comment : IsLocal comment := by
  have hstops : StopsAt '\n' comment :=
    (stopsAt_many rfl).seq (isCut_many _) ((stopsAt_one rfl).seq (isCut_one _) (stopsAt_many rfl))
  exact hstops

theorem stopsAt_gap (hstop : IsStop stop) : StopsAt stop gap :=
  stopsAt_many (hstop.eq_false rfl rfl)

theorem stopsAt_blanks (hstop : IsStop stop) : StopsAt stop blanks :=
  stopsAt_many1 (hstop.eq_false rfl rfl)

theorem stopsAt_className (hstop : IsStop stop) : StopsAt stop className :=
  (stopsAt_one (hstop.eq_false rfl rfl)).seq (isCut_one _)
    (stopsAt_many (hstop.eq_false rfl rfl))

theorem stopsAt_name (hstop : IsStop stop) : StopsAt stop name :=
  (stopsAt_one (hstop.eq_false rfl rfl)).seq (isCut_one _)
    (stopsAt_many (hstop.eq_false rfl rfl))

theorem stopsAt_endWord (hstop : IsStop stop) : StopsAt stop endWord := by
  have hword : stop.toLower ∉ ['e', 'n', 'd'].map Char.toLower := by
    rcases hstop with rfl | rfl <;> decide
  exact (stopsAt_wordCaseless hword).seq (isCut_wordCaseless _)
    (stopsAt_notBefore (hstop.eq_false (by decide) (by decide)))

theorem stopsAt_assignment (hstop : IsStop stop) : StopsAt stop assignment :=
  (stopsAt_gap hstop).seq (isCut_many _)
    ((stopsAt_one (hstop.eq_false rfl rfl)).seq (isCut_one _) (stopsAt_gap hstop))

theorem stopsAt_marker (hstop : IsStop stop) : StopsAt stop marker := by
  have hdashes : stop ∉ ['-', '-', '-'] := by
    rcases hstop with rfl | rfl <;> decide
  refine (stopsAt_word hdashes).seq (isCut_word _) (stopsAt_many ?_)
  rcases hstop with rfl | rfl <;> rfl

theorem seesLine_continuation : SeesLine (word ['\\', '\n']) := by
  intro line more more' _
  -- Two characters decide, and there are two up to the end of the line, or none of them counts.
  match line with
  | [] => simp [word]
  | [c] => simp [word]
  | c :: d :: line => simp [word]

/-- Digits stop at every character that is neither a digit nor an underscore. -/
theorem moreDigits_append_stop (hdigit : stop.isDigit = false) (hunderscore : stop ≠ '_')
    (cs more : List Char) :
    moreDigits (cs ++ stop :: more) = ((moreDigits cs).1, (moreDigits cs).2 ++ stop :: more) := by
  fun_induction moreDigits cs with
  | case1 d cs hd taken rest hrest ih => simp_all [moreDigits]
  | case2 d cs hd => simp [moreDigits, hd]
  | case3 c cs hnot hc taken rest hrest ih =>
    have hne : c ≠ '_' := by
      rintro rfl
      cases hc
    rw [List.cons_append, moreDigits_cons_of_ne hne, if_pos hc, ih, hrest]
  | case4 c cs hnot hc =>
    by_cases hne : c = '_'
    · subst hne
      cases cs with
      | nil => simp [moreDigits, hdigit]
      | cons d cs => exact (hnot d cs rfl rfl).elim
    · rw [List.cons_append, moreDigits_cons_of_ne hne, if_neg hc]
  | case5 => rw [List.nil_append, moreDigits_cons_of_ne hunderscore, if_neg (by simp [hdigit])]

theorem stopsAt_digits (hstop : IsStop stop) : StopsAt stop digits := by
  have hdigit : stop.isDigit = false := hstop.eq_false (by decide) (by decide)
  have hunderscore : stop ≠ '_' := by
    rcases hstop with rfl | rfl <;> decide
  apply (stopsAt_one hdigit).seq (isCut_one _)
  intro cs more _
  simp only [moreDigits_append_stop hdigit hunderscore, Option.map_some]

theorem stopsAt_exponent (hstop : IsStop stop) : StopsAt stop exponent := by
  refine (stopsAt_one ?_).seq (isCut_one _)
    ((stopsAt_one ?_).optional.seq (isCut_one _).optional (stopsAt_digits hstop))
  all_goals rcases hstop with rfl | rfl <;> rfl

theorem stopsAt_float (hstop : IsStop stop) : StopsAt stop float := by
  have hpoint : StopsAt stop (one (· = '.')) := stopsAt_one (by rcases hstop with rfl | rfl <;> rfl)
  have hfront : StopsAt stop (digits.seq ((one (· = '.')).seq digits.optional)) :=
    (stopsAt_digits hstop).seq isCut_digits
      (hpoint.seq (isCut_one _) (stopsAt_digits hstop).optional)
  have hback : StopsAt stop ((one (· = '.')).seq digits) :=
    hpoint.seq (isCut_one _) (stopsAt_digits hstop)
  have hcut : IsCut ((digits.seq ((one (· = '.')).seq digits.optional)).orElse
      ((one (· = '.')).seq digits)) :=
    (isCut_digits.seq ((isCut_one _).seq isCut_digits.optional)).orElse
      ((isCut_one _).seq isCut_digits)
  exact ((hfront.orElse hback).seq hcut (stopsAt_exponent hstop).optional).orElse
    ((stopsAt_digits hstop).seq isCut_digits (stopsAt_exponent hstop))

theorem stopsAt_imaginary (hstop : IsStop stop) : StopsAt stop imaginary := by
  have hunit : StopsAt stop imaginaryUnit := stopsAt_one (by rcases hstop with rfl | rfl <;> rfl)
  exact ((stopsAt_digits hstop).seq isCut_digits hunit).orElse
    ((stopsAt_float hstop).seq isCut_float hunit)

theorem stopsAt_radixNumeral {letter : Char} {isDigit : Char → Bool} (hstop : IsStop stop)
    (hletter : stop.toLower ≠ letter) (hdigit : isDigit stop = false) :
    StopsAt stop (radixNumeral letter isDigit) := by
  refine (stopsAt_one ?_).seq (isCut_one _) <|
    (stopsAt_one (decide_eq_false hletter)).seq (isCut_one _) (stopsAt_many1 hdigit)
  rcases hstop with rfl | rfl <;> rfl

end Lexeme

/-! ## Rules -/

theorem QuoteStyle.not_mem_quotes (style : QuoteStyle) {stop : Char} (hstop : IsStop stop) :
    stop ∉ style.quotes := by
  rcases hstop with rfl | rfl <;> cases style <;> decide

section Rules

variable {stop : Char} {cs line more more' : List Char}

theorem Match.ofPattern_of_stop {a : Pattern} (ha : SeesTo stop a) (hcs : stop ∉ cs) :
    ofPattern a (cs ++ stop :: more) = ofPattern a (cs ++ stop :: more') := by
  have hsame := congrArg (Option.map fun lexeme => ({ lexeme } : Match)) (ha cs more more' hcs)
  rw [Option.map_map, Option.map_map] at hsame
  exact hsame

/-- A match that sets a part apart, of patterns that stop at a character. -/
theorem Match.ofGroup_of_stop {a b c : Pattern} (ha : StopsAt stop a) (hacut : IsCut a)
    (hb : StopsAt stop b) (hbcut : IsCut b) (hc : StopsAt stop c) (hcs : stop ∉ cs) :
    ofGroup a b c (cs ++ stop :: more) = ofGroup a b c cs := by
  unfold ofGroup
  rw [ha cs more hcs]
  cases hx : a cs with
  | none => rfl
  | some cut =>
    obtain ⟨x, left⟩ := cut
    rw [hacut _ _ _ hx, List.mem_append, not_or] at hcs
    dsimp only [Option.map_some]
    rw [hb left more hcs.2]
    cases hy : b left with
    | none => rfl
    | some cut =>
      obtain ⟨y, left'⟩ := cut
      have hleft := hcs.2
      rw [hbcut _ _ _ hy, List.mem_append, not_or] at hleft
      dsimp only [Option.map_some]
      rw [hc left' more hleft.2]
      cases c left' <;> rfl

/-- A rule that may take a semicolon and go on behind it. -/
def Rule.TakesRemark (rule : Rule) : Prop :=
  rule = .directive ∨ rule = .comment ∨ rule = .bodyLine ∨ ∃ style, rule = .stringText style

/-- Any other rule finds the same whatever stands behind the first stop. -/
theorem Rule.match?_of_stop {rule : Rule} (hstop : IsStop stop) (hrule : ¬ rule.TakesRemark)
    (hcs : stop ∉ cs) : rule.match? (cs ++ stop :: more) = rule.match? (cs ++ stop :: more') := by
  have pattern {a : Pattern} (ha : StopsAt stop a) :
      Match.ofPattern a (cs ++ stop :: more) = Match.ofPattern a (cs ++ stop :: more') :=
    Match.ofPattern_of_stop ha.seesTo hcs
  have group {a b c : Pattern} (ha : StopsAt stop a) (hacut : IsCut a) (hb : StopsAt stop b)
      (hbcut : IsCut b) (hc : StopsAt stop c) :
      Match.ofGroup a b c (cs ++ stop :: more) = Match.ofGroup a b c (cs ++ stop :: more') := by
    rw [Match.ofGroup_of_stop ha hacut hb hbcut hc hcs,
      Match.ofGroup_of_stop ha hacut hb hbcut hc hcs]
  have hradix {letter : Char} {isDigit : Char → Bool} (hfeed : '\n'.toLower ≠ letter)
      (hremark : ';'.toLower ≠ letter) (hdigit : isDigit '\n' = false)
      (hdigit' : isDigit ';' = false) : StopsAt stop (radixNumeral letter isDigit) := by
    refine stopsAt_radixNumeral hstop ?_ (hstop.eq_false hdigit hdigit')
    rcases hstop with rfl | rfl
    · exact hfeed
    · exact hremark
  cases rule with
  | directive => exact absurd (.inl rfl) hrule
  | comment => exact absurd (.inr (.inl rfl)) hrule
  | bodyLine => exact absurd (.inr (.inr (.inl rfl))) hrule
  | stringText style => exact absurd (.inr (.inr (.inr ⟨style, rfl⟩))) hrule
  | blanks => exact pattern (stopsAt_blanks hstop)
  | newline | headerNewline | expressionNewline | bracket | operator | loneQuote =>
    exact Match.ofPattern_of_stop (seesTo_one _) hcs
  | strayEnd => exact pattern (stopsAt_endWord hstop)
  | className => exact pattern (stopsAt_className hstop)
  | blockEnd =>
    refine group (stopsAt_endWord hstop) isCut_endWord (stopsAt_many ?_) (isCut_many _)
      stopsAt_nothing
    rcases hstop with rfl | rfl <;> rfl
  | attributeName =>
    exact group stopsAt_nothing isCut_nothing (stopsAt_name hstop) isCut_name
      (stopsAt_assignment hstop)
  | bodyMarker => exact pattern (stopsAt_marker hstop)
  | instanceName | identifier => exact pattern (stopsAt_name hstop)
  | continuation =>
    rcases hstop with rfl | rfl
    · exact Match.ofPattern_of_stop seesLine_continuation hcs
    · exact pattern (stopsAt_word (by decide))
  | openString style =>
    refine group stopsAt_nothing isCut_nothing (stopsAt_one ?_).optional (isCut_one _).optional
      (stopsAt_word (style.not_mem_quotes hstop))
    rcases hstop with rfl | rfl <;> rfl
  | imaginary => exact pattern (stopsAt_imaginary hstop)
  | float => exact pattern (stopsAt_float hstop)
  | hex | octal | binary => exact pattern (hradix (by decide) (by decide) (by decide) (by decide))
  | integer => exact pattern (stopsAt_many1 (hstop.eq_false (by decide) (by decide)))
  | escape =>
    refine Match.ofPattern_of_stop ((stopsAt_one ?_).seq_seesTo (isCut_one _) (seesTo_one _)) hcs
    rcases hstop with rfl | rfl <;> rfl
  | closeString style => exact pattern (stopsAt_word (style.not_mem_quotes hstop))

/-- The rule of the text of a string that may run over several lines. -/
def Rule.RunsOn (rule : Rule) : Prop :=
  ∃ style : QuoteStyle, rule = .stringText style ∧ style.isTriple = true

/-- Any other rule finds the same whatever stands behind the end of the line. -/
theorem Rule.match?_of_line {rule : Rule} (hrule : ¬ rule.RunsOn) (hline : '\n' ∉ line) :
    rule.match? (line ++ '\n' :: more) = rule.match? (line ++ '\n' :: more') := by
  by_cases htakes : rule.TakesRemark
  · rcases htakes with rfl | rfl | rfl | ⟨style, rfl⟩
    · exact Match.ofPattern_of_stop (StopsAt.seesTo isLocal_directive) hline
    · exact Match.ofPattern_of_stop (StopsAt.seesTo isLocal_comment) hline
    · exact Match.ofPattern_of_stop
        ((stopsAt_many rfl).seq_seesTo (isCut_many _) (seesTo_one _)) hline
    · have hsingle : style.isTriple = false := by
        by_contra htriple
        exact hrule ⟨style, rfl, by simpa using htriple⟩
      refine Match.ofPattern_of_stop (StopsAt.seesTo (stopsAt_many1 ?_)) hline
      simp [isStringText, hsingle]
  · exact Rule.match?_of_stop isStop_lineFeed htakes hline

end Rules

/-! ## The rule that is selected -/

section Selection

variable {mode : Mode} {rule : Rule} {m : Match} {line more more' : List Char}

theorem Rule.take?_stringText_eq_none {style : QuoteStyle} {cs : List Char} :
    Rule.take? cs (.stringText style) = none ↔ cs.takeWhile (isStringText style) = [] := by
  unfold Rule.take? Rule.match? Match.ofPattern many1
  dsimp only
  by_cases hnil : cs.takeWhile (isStringText style) = []
  · simp [hnil]
  · simp [hnil]

theorem Rule.take?_stringText_eq_some {style : QuoteStyle} {cs : List Char} :
    Rule.take? cs (.stringText style) = some (.stringText style, m) ↔
      cs.takeWhile (isStringText style) ≠ [] ∧
        m = { lexeme := cs.takeWhile (isStringText style) } := by
  unfold Rule.take? Rule.match? Match.ofPattern many1
  dsimp only
  by_cases hnil : cs.takeWhile (isStringText style) = []
  · simp [hnil]
  · simp only [hnil, List.isEmpty_iff, if_false, Option.map_some, Option.some.injEq, Prod.mk.injEq,
      true_and, ne_eq, not_false_eq_true]
    exact eq_comm

/-- The characters of a class end in front of the same character. -/
theorem takeWhile_eq_of_append {p : Char → Bool} {cs taken left left' : List Char} {c : Char}
    (h : cs.takeWhile p = taken) (hcs : cs = taken ++ c :: left) :
    (taken ++ c :: left').takeWhile p = taken := by
  have hall : ∀ x ∈ taken, p x = true := by
    rw [← h]
    exact fun x hx => List.mem_takeWhile_imp hx
  rw [hcs, List.takeWhile_append_of_pos hall] at h
  have hnil : (c :: left).takeWhile p = [] :=
    List.append_cancel_left (h.trans (List.append_nil _).symm)
  have hc : ¬ p c = true := by
    intro hc
    simp [hc] at hnil
  rw [List.takeWhile_append_of_pos hall, List.takeWhile_cons_of_neg hc, List.append_nil]

/-- Whether there is text of a string at all is seen from the first character. -/
theorem takeWhile_eq_nil_of_line {p : Char → Bool}
    (h : (line ++ '\n' :: more).takeWhile p = []) : (line ++ '\n' :: more').takeWhile p = [] := by
  cases line with
  | nil =>
    rw [List.nil_append, List.takeWhile_cons] at h ⊢
    split
    · next hp => simp [hp] at h
    · rfl
  | cons c line =>
    rw [List.cons_append, List.takeWhile_cons] at h ⊢
    split
    · next hp => simp [hp] at h
    · rfl

/-- The same rule is selected whatever stands behind the end of the line.  The text of a
string is the same if the character behind it is. -/
theorem Mode.select_of_line (hline : '\n' ∉ line)
    (h : mode.select (line ++ '\n' :: more) = some (rule, m))
    (htext : rule.RunsOn → ∃ c left left', line ++ '\n' :: more = m.lexeme ++ c :: left ∧
      line ++ '\n' :: more' = m.lexeme ++ c :: left') :
    mode.select (line ++ '\n' :: more') = some (rule, m) := by
  refine Mode.select_of_take? h (fun htake => ?_) fun other hnone => ?_
  · by_cases hruns : rule.RunsOn
    · obtain ⟨c, left, left', hcs, hcs'⟩ := htext hruns
      obtain ⟨style, rfl, -⟩ := hruns
      rw [Rule.take?_stringText_eq_some] at htake ⊢
      obtain ⟨hne, hm⟩ := htake
      have htaken := (congrArg Match.lexeme hm).symm
      have hsame : (line ++ '\n' :: more').takeWhile (isStringText style) = m.lexeme := by
        rw [hcs']
        exact takeWhile_eq_of_append htaken hcs
      rw [hsame, ← htaken]
      exact ⟨hne, hm⟩
    · unfold Rule.take? at htake ⊢
      rwa [Rule.match?_of_line hruns hline]
  · by_cases hruns : other.RunsOn
    · obtain ⟨style, rfl, -⟩ := hruns
      rw [Rule.take?_stringText_eq_none] at hnone ⊢
      exact takeWhile_eq_nil_of_line hnone
    · unfold Rule.take? at hnone ⊢
      rwa [Rule.match?_of_line hruns hline]

end Selection

end BlockLexer
