import BlockLexer.Proofs.Sight

/-!
# What a rule sees of a comment

A rule that takes a part of the text in front of a semicolon does the same whatever stands
behind the semicolon.  Some rules would go on behind it, but then they take more than that.

* `Pattern.ReadsTo` says so of a pattern and a character, and `Rule.match?_of_remark` of a
  rule and a semicolon.
* `Mode.select_of_remark` is the rule that is selected.
-/

namespace BlockLexer

open Text Pattern Lexeme

/-! ## Patterns -/

namespace Pattern

variable {a b : Pattern} {p : Char → Bool} {stop : Char} {text more more' : List Char}

/-- A pattern that takes a part of what stands in front of a character finds the same whatever
stands behind it. -/
def ReadsTo (c : Char) (a : Pattern) : Prop :=
  ∀ text more more', (a (text ++ c :: more) = none → a (text ++ c :: more') = none) ∧
    ∀ x left, a (text ++ c :: more) = some (x, left) → x.length ≤ text.length →
      ∃ left', a (text ++ c :: more') = some (x, left')

/-- A pattern that stops at a character finds nothing in front of it, or finds the same there,
whatever stands behind it. -/
theorem StopsAt.cases (h : StopsAt stop a) (hcut : IsCut a) (text : List Char) :
    (∀ more, a (text ++ stop :: more) = none) ∨
      ∃ x left, text = x ++ left ∧ ∀ more, a (text ++ stop :: more) = some (x, left ++ stop :: more) := by
  -- The pattern stops at the first of these characters, which may be one of the text.
  obtain ⟨cs, behind, hcs, htext, hjoin⟩ : ∃ cs behind, stop ∉ cs ∧ text = cs ++ behind ∧
      ∀ more, ∃ rest, behind ++ stop :: more = stop :: rest := by
    by_cases hmem : stop ∈ text
    · obtain ⟨cs, rest, rfl, hcs⟩ := List.eq_append_cons_of_mem hmem
      exact ⟨cs, stop :: rest, hcs, rfl, fun more => ⟨_, rfl⟩⟩
    · exact ⟨text, [], hmem, (List.append_nil _).symm, fun more => ⟨more, rfl⟩⟩
  subst htext
  cases hx : a cs with
  | none =>
    left
    intro more
    obtain ⟨rest, hrest⟩ := hjoin more
    rw [List.append_assoc, hrest, h cs rest hcs, hx]
    rfl
  | some cut =>
    obtain ⟨x, left⟩ := cut
    refine .inr ⟨x, left ++ behind, ?_, fun more => ?_⟩
    · rw [hcut _ _ _ hx, List.append_assoc]
    · obtain ⟨rest, hrest⟩ := hjoin more
      rw [List.append_assoc, List.append_assoc, hrest, h cs rest hcs, hx]
      rfl

/-- Behind a pattern that stops at a character another one may read up to it. -/
theorem StopsAt.seq_readsTo (ha : StopsAt stop a) (hcut : IsCut a) (hb : ReadsTo stop b) :
    ReadsTo stop (a.seq b) := by
  intro text more more'
  unfold Pattern.seq
  rcases ha.cases hcut text with hnone | ⟨x, left, rfl, hsome⟩
  · rw [hnone more, hnone more']
    exact ⟨fun _ => rfl, fun _ _ h => nomatch h⟩
  rw [hsome more, hsome more']
  dsimp only
  obtain ⟨hnone, hshort⟩ := hb left more more'
  cases hy : b (left ++ stop :: more) with
  | none =>
    rw [hnone hy]
    exact ⟨fun _ => rfl, fun _ _ h => nomatch h⟩
  | some cut =>
    obtain ⟨y, rest⟩ := cut
    refine ⟨(nomatch ·), ?_⟩
    rintro _ _ ⟨⟩ hlength
    rw [List.length_append, List.length_append] at hlength
    obtain ⟨rest', hy'⟩ := hshort y rest hy (by omega)
    exact ⟨rest', by rw [hy']⟩

theorem ReadsTo.optional (h : ReadsTo stop a) : ReadsTo stop a.optional := by
  intro text more more'
  obtain ⟨hnone, hshort⟩ := h text more more'
  unfold Pattern.optional Pattern.orElse
  cases hx : a (text ++ stop :: more) with
  | none =>
    rw [hnone hx]
    refine ⟨(nomatch ·), ?_⟩
    rintro _ _ ⟨⟩ -
    exact ⟨_, rfl⟩
  | some cut =>
    refine ⟨(nomatch ·), ?_⟩
    rintro x left ⟨⟩ hlength
    obtain ⟨left', hx'⟩ := hshort x left hx hlength
    exact ⟨left', by rw [hx']⟩

/-- Characters of a class that go on behind a character of the class take more than what stands
in front of it, or end there. -/
theorem takeWhile_of_short (more' : List Char) (hp : p stop = true)
    (h : ((text ++ stop :: more).takeWhile p).length ≤ text.length) :
    (text ++ stop :: more').takeWhile p = (text ++ stop :: more).takeWhile p := by
  induction text with
  | nil => simp [hp] at h
  | cons c text ih =>
    rw [List.cons_append, List.takeWhile_cons, List.cons_append, List.takeWhile_cons] at *
    split
    · next hc =>
      rw [if_pos hc, List.length_cons, List.length_cons, Nat.add_le_add_iff_right] at h
      rw [ih h]
    · rfl

/-- So does a run of such characters. -/
theorem readsTo_many1 (hp : p stop = true) : ReadsTo stop (many1 p) := by
  intro text more more'
  unfold many1
  by_cases hshort : ((text ++ stop :: more).takeWhile p).length ≤ text.length
  · rw [takeWhile_of_short more' hp hshort]
    split
    · exact ⟨fun _ => rfl, fun _ _ h => nomatch h⟩
    · refine ⟨(nomatch ·), ?_⟩
      rintro _ _ ⟨⟩ -
      exact ⟨_, rfl⟩
  · have hne : ((text ++ stop :: more).takeWhile p).isEmpty = false := by
      rw [Bool.eq_false_iff, ne_eq, List.isEmpty_iff]
      intro hnil
      simp [hnil] at hshort
    rw [if_neg (by simp [hne])]
    refine ⟨(nomatch ·), ?_⟩
    rintro _ _ ⟨⟩ hlength
    exact absurd hlength hshort

end Pattern

/-! ## Rules -/

/-- A comment that begins at the semicolon takes more than what stands in front of it. -/
theorem Lexeme.readsTo_remark : ReadsTo ';' remark := by
  intro text more more'
  unfold remark Pattern.seq many
  cases text with
  | nil =>
    refine ⟨(nomatch ·), ?_⟩
    rintro _ _ ⟨⟩ hlength
    simp at hlength
  | cons c text =>
    by_cases hc : c = ';'
    · subst hc
      refine ⟨(nomatch ·), ?_⟩
      rintro _ _ ⟨⟩ hlength
      have hshort : ((text ++ ';' :: more).takeWhile inLine).length ≤ text.length := by
        simpa using hlength
      refine ⟨(text ++ ';' :: more').dropWhile inLine, ?_⟩
      show some (';' :: (text ++ ';' :: more').takeWhile inLine, _) = _
      rw [takeWhile_of_short more' rfl hshort]
      rfl
    · simp [one, hc]

section Rules

variable {rule : Rule} {m : Match} {text more more' : List Char}

theorem Match.ofPattern_of_remark {a : Pattern} (ha : ReadsTo ';' a) :
    (ofPattern a (text ++ ';' :: more) = none → ofPattern a (text ++ ';' :: more') = none) ∧
      ∀ m, ofPattern a (text ++ ';' :: more) = some m → m.lexeme.length ≤ text.length →
        ofPattern a (text ++ ';' :: more') = some m := by
  obtain ⟨hnone, hshort⟩ := ha text more more'
  constructor
  · intro h
    rw [ofPattern, Option.map_eq_none_iff] at h ⊢
    exact hnone h
  · intro m h hlength
    obtain ⟨⟨x, left⟩, hx, rfl⟩ := Option.map_eq_some_iff.1 h
    obtain ⟨left', hx'⟩ := hshort x left hx hlength
    rw [ofPattern, hx']
    rfl

/-- The rest of a line of a body goes up to the end of the line. -/
theorem Rule.match?_bodyLine_ne_none (hmore : '\n' ∈ more) :
    Rule.match? .bodyLine (text ++ ';' :: more) ≠ none := by
  obtain ⟨line, rest, hjoin, hline⟩ := List.eq_append_cons_of_mem
    (List.mem_append_right text (List.mem_cons_of_mem ';' hmore))
  have hall : ∀ c ∈ line, inLine c = true := by
    intro c hc
    simpa [inLine] using ne_of_mem_of_not_mem hc hline
  rw [hjoin]
  simp [match?, Match.ofPattern, Pattern.seq, many, lineEnd, one,
    List.takeWhile_append_of_pos hall, List.dropWhile_append_of_pos hall, inLine]

theorem Rule.match?_bodyLine_of_short (h : Rule.match? .bodyLine (text ++ ';' :: more) = some m)
    (hlength : m.lexeme.length ≤ text.length) :
    Rule.match? .bodyLine (text ++ ';' :: more') = some m := by
  have hfeed : '\n' ∈ text := by
    by_contra hfree
    have hall : ∀ c ∈ text, inLine c = true := by
      intro c hc
      simpa [inLine] using ne_of_mem_of_not_mem hc hfree
    obtain ⟨left, hcut, -⟩ := Match.exists_append_of_ofPattern
      ((isCut_many _).seq (isCut_one _)) h
    obtain ⟨line, feed, between, hline, -, hlexeme⟩ := exists_of_seq_eq_some hcut
    obtain ⟨rfl, -⟩ := Prod.mk.inj (Option.some.inj hline)
    rw [hlexeme, List.takeWhile_append_of_pos hall, List.takeWhile_cons_of_pos rfl] at hlength
    simp only [List.length_append, List.length_cons] at hlength
    omega
  obtain ⟨line, rest, rfl, hline⟩ := List.eq_append_cons_of_mem hfeed
  rw [List.append_assoc, List.cons_append] at h ⊢
  have hrule : ¬ Rule.RunsOn .bodyLine := by
    rintro ⟨style, hstyle, -⟩
    cases hstyle
  rwa [Rule.match?_of_line hrule hline]

/-- A rule that takes a part of what stands in front of a semicolon finds the same whatever
stands behind it, as long as the line has an end. -/
theorem Rule.match?_of_remark (rule : Rule) (text : List Char) (hmore : '\n' ∈ more)
    (more' : List Char) :
    (rule.match? (text ++ ';' :: more) = none → rule.match? (text ++ ';' :: more') = none) ∧
      ∀ m, rule.match? (text ++ ';' :: more) = some m → m.lexeme.length ≤ text.length →
        rule.match? (text ++ ';' :: more') = some m := by
  by_cases htakes : rule.TakesRemark
  · have hremark : IsStop ';' := .inr rfl
    rcases htakes with rfl | rfl | rfl | ⟨style, rfl⟩
    · refine Match.ofPattern_of_remark <| (stopsAt_gap hremark).seq_readsTo (isCut_many _) <|
        (stopsAt_wordCaseless (by decide)).seq_readsTo (isCut_wordCaseless _) <|
          (stopsAt_blanks hremark).seq_readsTo (isCut_many1 _) <|
            (stopsAt_many1 rfl).seq_readsTo (isCut_many1 _) <|
              (stopsAt_gap hremark).seq_readsTo (isCut_many _) readsTo_remark.optional
    · exact Match.ofPattern_of_remark
        ((stopsAt_gap hremark).seq_readsTo (isCut_many _) readsTo_remark)
    · exact ⟨fun hnone => absurd hnone (match?_bodyLine_ne_none hmore),
        fun m => match?_bodyLine_of_short⟩
    · refine Match.ofPattern_of_remark (readsTo_many1 ?_)
      cases style <;> rfl
  · -- The rule stops at the first semicolon, which may be one of the text.
    have hsame : rule.match? (text ++ ';' :: more) = rule.match? (text ++ ';' :: more') := by
      by_cases hmem : ';' ∈ text
      · obtain ⟨cs, rest, rfl, hcs⟩ := List.eq_append_cons_of_mem hmem
        rw [List.append_assoc, List.append_assoc]
        exact Rule.match?_of_stop (.inr rfl) htakes hcs
      · exact Rule.match?_of_stop (.inr rfl) htakes hmem
    rw [hsame]
    exact ⟨id, fun m h _ => h⟩

end Rules

/-! ## The rule that is selected -/

/-- A rule that is selected for a part of what stands in front of a semicolon is selected for
it whatever stands behind the semicolon, as long as the line has an end. -/
theorem Mode.select_of_remark {mode : Mode} {rule : Rule} {m : Match} {text more : List Char}
    (h : mode.select (text ++ ';' :: more) = some (rule, m)) (hlength : m.lexeme.length ≤ text.length)
    (hmore : '\n' ∈ more) (more' : List Char) :
    mode.select (text ++ ';' :: more') = some (rule, m) := by
  refine Mode.select_of_take? h (fun _ => ?_) fun other htaken => ?_
  · obtain ⟨-, hshort⟩ := rule.match?_of_remark text hmore more'
    have hmatch := Mode.match?_of_select h
    have hne := Mode.select_lexeme_ne_nil h
    rw [Rule.take?, hshort m hmatch hlength]
    simp [hne]
  · obtain ⟨hnone, hshort⟩ := other.match?_of_remark text hmore more'
    unfold Rule.take? at htaken ⊢
    cases hmatch : other.match? (text ++ ';' :: more) with
    | none => rw [hnone hmatch]
    | some m' =>
      rw [hmatch] at htaken
      have hnil : m'.lexeme = [] := by simpa using htaken
      rw [hshort m' hmatch (by simp [hnil])]
      simp [hnil]

end BlockLexer
