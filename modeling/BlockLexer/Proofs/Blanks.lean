import BlockLexer.Proofs.Indented
import BlockLexer.Proofs.Select
import BlockLexer.Proofs.Sight

/-!
# Rules behind blanks

A line may be read behind blanks.  Outside of bodies and strings a rule either takes the
blanks together with what it takes anyway, or the blanks are taken by themselves first.

* `Rule.takesBlank` and `Rule.takesLineFeed` are the rules that may begin with a blank and
  with the end of a line.
* `Mode.select_append_blanks` is the rule that is selected behind blanks.
* `Mode.lexeme_of_select`: what a rule takes ends within the line, or with it.
-/

namespace BlockLexer

open Text Pattern Lexeme

/-! ## First characters -/

/-- The rules that may begin with a blank. -/
def Rule.takesBlank : Rule → Bool
  | directive | comment | blanks | bodyLine | stringText _ => true
  | _ => false

/-- The rules that may begin with the end of a line. -/
def Rule.takesLineFeed : Rule → Bool
  | newline | headerNewline | expressionNewline | bodyLine | stringText _ => true
  | _ => false

section First

variable {rule : Rule} {c : Char} {cs : List Char}

/-- No other rule begins with a gap. -/
theorem Rule.match?_of_gap (hc : c = ' ' ∨ c = '\t' ∨ c = '\n') (hblank : rule.takesBlank = false)
    (hfeed : rule.takesLineFeed = false) : rule.match? (c :: cs) = none := by
  have stops {p : Char → Bool} (hspace : p ' ' = false) (htab : p '\t' = false)
      (hend : p '\n' = false) : Stops p (c :: cs) := by
    apply stops_cons
    rcases hc with rfl | rfl | rfl
    · exact hspace
    · exact htab
    · exact hend
  have pattern {a : Pattern} (ha : a (c :: cs) = none) : Match.ofPattern a (c :: cs) = none :=
    Match.ofPattern_eq_none ha
  have hdigit : Stops Char.isDigit (c :: cs) := stops rfl rfl rfl
  have hname : Stops startsName (c :: cs) := stops rfl rfl rfl
  have hword : endWord (c :: cs) = none := by
    rcases hc with rfl | rfl | rfl <;> rfl
  cases rule with
  | directive | comment | blanks | bodyLine | stringText => cases hblank
  | newline | headerNewline | expressionNewline => cases hfeed
  | strayEnd => exact pattern hword
  | className => exact pattern (seq_eq_none_of_left (one_eq_none (stops rfl rfl rfl)))
  | blockEnd =>
    rw [Rule.match?, Match.ofGroup, hword]
  | attributeName =>
    have hnone : Lexeme.name (c :: cs) = none := seq_eq_none_of_left (one_eq_none hname)
    simp only [Rule.match?, Match.ofGroup, Pattern.nothing, hnone]
  | bodyMarker => exact pattern (seq_eq_none_of_left (word_eq_none (stops rfl rfl rfl)))
  | instanceName | identifier => exact pattern (seq_eq_none_of_left (one_eq_none hname))
  | continuation => exact pattern (word_eq_none (stops rfl rfl rfl))
  | openString style =>
    have halpha : Pattern.one Char.isAlpha (c :: cs) = none := one_eq_none (stops rfl rfl rfl)
    have hquotes : Pattern.word style.quotes (c :: cs) = none := by
      apply word_quotes_eq_none
      cases style <;> exact stops rfl rfl rfl
    simp only [Rule.match?, Match.ofGroup, Pattern.nothing, Pattern.optional, Pattern.orElse, halpha,
      hquotes]
  | imaginary => exact pattern (imaginary_eq_none hdigit (stops rfl rfl rfl))
  | float => exact pattern (float_eq_none hdigit (stops rfl rfl rfl))
  | hex | octal | binary => exact pattern (radixNumeral_eq_none (stops rfl rfl rfl))
  | integer =>
    refine pattern ?_
    unfold Lexeme.integer Pattern.many1
    rw [List.takeWhile_cons_of_neg (by simpa using hdigit c rfl)]
    rfl
  | bracket | operator => exact pattern (one_eq_none (stops rfl rfl rfl))
  | escape => exact pattern (seq_eq_none_of_left (one_eq_none (stops rfl rfl rfl)))
  | closeString style =>
    refine pattern (word_quotes_eq_none style ?_)
    cases style <;> exact stops rfl rfl rfl
  | loneQuote style =>
    refine pattern (one_eq_none ?_)
    cases style <;> exact stops rfl rfl rfl

theorem Rule.match?_of_blank (hc : isBlank c = true) (hrule : rule.takesBlank = false) :
    rule.match? (c :: cs) = none := by
  have hsame : c = ' ' ∨ c = '\t' := by simpa [isBlank] using hc
  by_cases hfeed : rule.takesLineFeed = true
  · have hend : Match.ofPattern lineEnd (c :: cs) = none := by
      apply Match.ofPattern_eq_none
      rcases hsame with rfl | rfl <;> rfl
    cases rule with
    | newline | headerNewline | expressionNewline => exact hend
    | bodyLine | stringText => cases hrule
    | _ => cases hfeed
  · exact match?_of_gap (hsame.imp_right .inl) hrule (by simpa using hfeed)

theorem Rule.match?_of_lineFeed (hrule : rule.takesLineFeed = false) :
    rule.match? ('\n' :: cs) = none := by
  by_cases hblank : rule.takesBlank = true
  · cases rule with
    | directive | comment | blanks => rfl
    | bodyLine | stringText => cases hrule
    | _ => cases hblank
  · exact match?_of_gap (.inr (.inr rfl)) (by simpa using hblank) hrule

end First

/-! ## Rules behind blanks -/

/-- A match with more in front of it. -/
def Match.behind (blanks : List Char) (m : Match) : Match :=
  { m with lexeme := blanks ++ m.lexeme }

section Behind

variable {mode : Mode} {rule : Rule} {m : Match} {blanks cs line more more' : List Char}

/-- A comment may have any blanks in front of it. -/
theorem Lexeme.comment_append_blanks (hblanks : ∀ c ∈ blanks, isBlank c = true) (cs : List Char) :
    comment (blanks ++ cs) = (comment cs).map fun cut => (blanks ++ cut.1, cut.2) := by
  have htake : gap (blanks ++ cs) =
      some (blanks ++ cs.takeWhile isBlank, cs.dropWhile isBlank) := by
    rw [gap, Pattern.many, List.takeWhile_append_of_pos hblanks,
      List.dropWhile_append_of_pos hblanks]
  have hgap : gap cs = some (cs.takeWhile isBlank, cs.dropWhile isBlank) := rfl
  unfold comment Pattern.seq
  rw [htake, hgap]
  dsimp only
  split <;> simp_all [List.append_assoc]

/-- Directives and comments are never empty. -/
theorem Rule.lexeme_ne_nil_of_lead (hrule : rule = .directive ∨ rule = .comment)
    (h : rule.match? cs = some m) : m.lexeme ≠ [] := by
  rcases hrule with rfl | rfl
  · obtain ⟨left, hcut, -⟩ := Match.exists_append_of_ofPattern isCut_directive h
    obtain ⟨_, _, _, -, htail, hlexeme⟩ := exists_of_seq_eq_some hcut
    obtain ⟨word, _, _, hword, -, rfl⟩ := exists_of_seq_eq_some htail
    obtain ⟨hsame, hword⟩ := Option.ite_none_right_eq_some.1 hword
    obtain ⟨rfl, -⟩ := Prod.mk.inj (Option.some.inj hword)
    rw [hlexeme]
    refine List.append_ne_nil_of_right_ne_nil _ (List.append_ne_nil_of_left_ne_nil ?_ _)
    intro hnil
    rw [hnil] at hsame
    cases hsame
  · obtain ⟨left, hcut, -⟩ := Match.exists_append_of_ofPattern isCut_comment h
    obtain ⟨_, _, _, -, htail, hlexeme⟩ := exists_of_seq_eq_some hcut
    obtain ⟨sign, _, _, hsign, -, rfl⟩ := exists_of_seq_eq_some htail
    rw [hlexeme]
    refine List.append_ne_nil_of_right_ne_nil _ (List.append_ne_nil_of_left_ne_nil ?_ _)
    obtain ⟨c, -, rfl, -⟩ := exists_of_one_eq_some hsign
    exact List.cons_ne_nil c []

/-- Directives and comments take the blanks in front of them. -/
theorem Rule.take?_append_blanks (hblanks : ∀ c ∈ blanks, isBlank c = true)
    (hrule : rule = .directive ∨ rule = .comment) (cs : List Char) :
    Rule.take? (blanks ++ cs) rule =
      (Rule.take? cs rule).map fun found => (found.1, found.2.behind blanks) := by
  have hmatch : rule.match? (blanks ++ cs) = (rule.match? cs).map (Match.behind blanks) := by
    rcases hrule with rfl | rfl
    · show Match.ofPattern Lexeme.directive (blanks ++ cs) =
        (Match.ofPattern Lexeme.directive cs).map _
      rw [Match.ofPattern, directive_append_blanks hblanks, Match.ofPattern, Option.map_map,
        Option.map_map]
      rfl
    · show Match.ofPattern Lexeme.comment (blanks ++ cs) = (Match.ofPattern Lexeme.comment cs).map _
      rw [Match.ofPattern, comment_append_blanks hblanks, Match.ofPattern, Option.map_map,
        Option.map_map]
      rfl
  unfold Rule.take?
  rw [hmatch]
  cases hfound : rule.match? cs with
  | none => rfl
  | some m =>
    have hne := Rule.lexeme_ne_nil_of_lead hrule hfound
    have hbehind : (m.behind blanks).lexeme ≠ [] := List.append_ne_nil_of_right_ne_nil blanks hne
    simp [hne, hbehind]

theorem Rule.findSome?_append_blanks {leads : List Rule}
    (hblanks : ∀ c ∈ blanks, isBlank c = true)
    (hleads : ∀ rule ∈ leads, rule = .directive ∨ rule = .comment) (cs : List Char) :
    leads.findSome? (Rule.take? (blanks ++ cs)) =
      (leads.findSome? (Rule.take? cs)).map fun found => (found.1, found.2.behind blanks) := by
  induction leads with
  | nil => rfl
  | cons lead leads ih =>
    obtain ⟨hfirst, hleads⟩ := List.forall_mem_cons.1 hleads
    rw [List.findSome?_cons, List.findSome?_cons, Rule.take?_append_blanks hblanks hfirst]
    cases Rule.take? cs lead with
    | none => exact ih hleads
    | some found => rfl

/-- Outside of bodies and strings only directives and comments come in front of the rules that
begin with no blank, and blanks come behind them. -/
theorem Mode.exists_rules (hmode : mode = .default ∨ mode = .block ∨ mode = .expression) :
    ∃ leads between after, mode.rules = leads ++ (between ++ .blanks :: after) ∧
      (∀ rule ∈ leads, rule = .directive ∨ rule = .comment) ∧
      ∀ rule ∈ between, rule.takesBlank = false := by
  rcases hmode with rfl | rfl | rfl
  · exact ⟨[.directive, .comment], [], [.newline, .strayEnd, .className], rfl, by simp, by simp⟩
  · exact ⟨[.directive, .comment], [.blockEnd, .attributeName, .bodyMarker],
      [.className, .instanceName, .headerNewline], rfl, by simp, by simp [Rule.takesBlank]⟩
  · exact ⟨[.comment], [.continuation, .openString .tripleSingle, .openString .tripleDouble,
      .openString .single, .openString .double, .imaginary, .float, .hex, .octal, .binary, .integer,
      .identifier, .bracket, .expressionNewline], [.operator], rfl, by simp,
      by simp [Rule.takesBlank]⟩

/-- Behind the rules of directives and comments, a text that begins with blanks is taken by the
rule of blanks. -/
theorem Rule.findSome?_of_blanks {between after : List Rule} (hne : cs.takeWhile isBlank ≠ [])
    (hbetween : ∀ rule ∈ between, rule.takesBlank = false) :
    (between ++ .blanks :: after).findSome? (Rule.take? cs) =
      some (.blanks, { lexeme := cs.takeWhile isBlank }) := by
  obtain ⟨c, more, hcs⟩ := List.exists_cons_of_ne_nil (l := cs) (by rintro rfl; exact hne rfl)
  have hc : isBlank c = true := by
    by_contra hc
    rw [hcs, List.takeWhile_cons_of_neg hc] at hne
    exact hne rfl
  have hnone : between.findSome? (Rule.take? cs) = none := by
    rw [List.findSome?_eq_none_iff]
    intro rule hrule
    rw [Rule.take?, hcs, Rule.match?_of_blank hc (hbetween rule hrule)]
  have htake : Rule.take? cs .blanks = some (.blanks, { lexeme := cs.takeWhile isBlank }) := by
    have hcut : Lexeme.blanks cs = some (cs.takeWhile isBlank, cs.dropWhile isBlank) := by
      unfold Lexeme.blanks Pattern.many1
      rw [if_neg (by simpa using hne)]
    have hmatch : Rule.match? .blanks cs = some { lexeme := cs.takeWhile isBlank } :=
      Match.ofPattern_eq_some hcut
    rw [Rule.take?, hmatch]
    simp [hne]
  rw [List.findSome?_append, hnone, Option.none_or, List.findSome?_cons, htake]

/-- Behind blanks the same rule is selected, and takes them too, or they are taken by
themselves. -/
theorem Mode.select_append_blanks (hmode : mode = .default ∨ mode = .block ∨ mode = .expression)
    (hblanks : ∀ c ∈ blanks, isBlank c = true) (hne : blanks ≠ [])
    (h : mode.select cs = some (rule, m)) :
    ((rule = .directive ∨ rule = .comment ∨ rule = .blanks) ∧
        mode.select (blanks ++ cs) = some (rule, m.behind blanks)) ∨
      mode.select (blanks ++ cs) = some (.blanks, { lexeme := blanks }) := by
  obtain ⟨leads, between, after, hrules, hleads, hbetween⟩ := Mode.exists_rules hmode
  have htake : (blanks ++ cs).takeWhile isBlank = blanks ++ cs.takeWhile isBlank :=
    List.takeWhile_append_of_pos hblanks
  have hgap : (between ++ .blanks :: after).findSome? (Rule.take? (blanks ++ cs)) =
      some (.blanks, { lexeme := blanks ++ cs.takeWhile isBlank }) := by
    rw [← htake]
    apply Rule.findSome?_of_blanks _ hbetween
    rw [htake]
    exact List.append_ne_nil_of_left_ne_nil hne _
  unfold Mode.select at h ⊢
  rw [hrules, List.findSome?_append] at h ⊢
  rw [Rule.findSome?_append_blanks hblanks hleads, hgap]
  cases hfound : leads.findSome? (Rule.take? cs) with
  | some found =>
    obtain ⟨lead, m'⟩ := found
    rw [hfound] at h
    obtain ⟨rfl, rfl⟩ := Prod.mk.inj (Option.some.inj h)
    obtain ⟨lead', hmem, htaken⟩ := List.exists_of_findSome?_eq_some hfound
    obtain rfl := Rule.eq_of_take? htaken
    exact .inl ⟨(hleads lead hmem).imp_right .inl, rfl⟩
  | none =>
    rw [hfound, Option.none_or] at h
    by_cases hcs : cs.takeWhile isBlank = []
    · right
      rw [hcs, List.append_nil]
      rfl
    · left
      rw [Rule.findSome?_of_blanks hcs hbetween] at h
      obtain ⟨rfl, rfl⟩ := Prod.mk.inj (Option.some.inj h)
      exact ⟨.inr (.inr rfl), rfl⟩

/-! ## Within a line -/

/-- What a rule takes ends within the line, or with it. -/
theorem Mode.lexeme_of_select (hline : '\n' ∉ line)
    (h : mode.select (line ++ '\n' :: more) = some (rule, m))
    (htext : rule.RunsOn → '\n' ∉ m.lexeme) :
    (∃ left, line = m.lexeme ++ left) ∨ m.lexeme = line ++ ['\n'] := by
  by_cases hfeed : '\n' ∈ m.lexeme
  · -- The rule does not see the lines below, so there might be none.
    right
    have hsame : mode.select (line ++ '\n' :: []) = some (rule, m) :=
      Mode.select_of_line hline h fun hruns => absurd hfeed (htext hruns)
    obtain ⟨left, hleft⟩ := Rule.exists_append_of_match? (Mode.match?_of_select hsame)
    rcases List.eq_nil_or_concat left with rfl | ⟨init, last, rfl⟩
    · rw [hleft, List.append_nil]
    · rw [List.concat_eq_append, ← List.append_assoc] at hleft
      obtain ⟨hinit, -⟩ := List.append_inj' hleft rfl
      rw [hinit] at hline
      exact absurd (List.mem_append_left init hfeed) hline
  · left
    obtain ⟨left, hleft⟩ := Rule.exists_append_of_match? (Mode.match?_of_select h)
    rcases List.append_eq_append_iff.1 hleft with ⟨between, hlexeme, hmore⟩ | ⟨between, hcut, -⟩
    · cases between with
      | nil => exact ⟨[], by rw [hlexeme, List.append_nil, List.append_nil]⟩
      | cons c between =>
        obtain ⟨rfl, -⟩ := List.cons.inj hmore
        rw [hlexeme] at hfeed
        exact absurd (List.mem_append_right line List.mem_cons_self) hfeed
    · exact ⟨between, hcut⟩

/-- The same rule is selected whatever the lines below are. -/
theorem Mode.select_of_lexeme (hline : '\n' ∉ line)
    (h : mode.select (line ++ '\n' :: more) = some (rule, m))
    (htext : rule.RunsOn → '\n' ∉ m.lexeme) :
    mode.select (line ++ '\n' :: more') = some (rule, m) := by
  refine Mode.select_of_line hline h fun hruns => ?_
  rcases Mode.lexeme_of_select hline h htext with ⟨left, hleft⟩ | hwhole
  · cases left with
    | nil =>
      rw [List.append_nil] at hleft
      exact ⟨'\n', more, more', by rw [hleft], by rw [hleft]⟩
    | cons c left =>
      exact ⟨c, left ++ '\n' :: more, left ++ '\n' :: more', by rw [hleft]; simp,
        by rw [hleft]; simp⟩
  · refine absurd ?_ (htext hruns)
    rw [hwhole]
    exact List.mem_append_right line List.mem_cons_self

end Behind

end BlockLexer
