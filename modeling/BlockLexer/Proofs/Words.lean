import BlockLexer.Rule

/-!
# Words in front of a boundary

What the patterns of the notation do with a word behind which no more of it follows.

* `Stops` says that a text does not begin with a character of a class.
* `Pattern.many_append`, `Lexeme.name_append` and the like take exactly the word.
* `Pattern.wordCaseless_append` and `Lexeme.directive_append` say when a word that is
  longer than a keyword, or another word, is not taken for it.
-/

namespace BlockLexer

open Text Pattern

/-! ## Classes of characters -/

/-- A character of a class is none that is outside of it. -/
theorem ne_of_class {p : Char → Bool} {c d : Char} (hc : p c = true) (hd : p d = false) :
    c ≠ d := by
  rintro rfl
  simp [hc] at hd

theorem continuesName_of_startsName {c : Char} (h : startsName c = true) :
    continuesName c = true := by
  simp only [startsName, continuesName, Bool.or_eq_true, decide_eq_true_eq] at h ⊢
  exact h.imp_right fun halpha => by simp [Char.isAlphanum, halpha]

theorem continuesName_of_isDigit {c : Char} (h : c.isDigit = true) : continuesName c = true := by
  simp [continuesName, Char.isAlphanum, h]

theorem not_isBlank_of_continuesName {c : Char} (h : continuesName c = true) :
    isBlank c = false := by
  have hspace : c ≠ ' ' := ne_of_class h rfl
  have htab : c ≠ '\t' := ne_of_class h rfl
  simp [isBlank, hspace, htab]

theorem isUpper_iff {c : Char} : c.isUpper = true ↔ 65 ≤ c.toNat ∧ c.toNat ≤ 90 := by
  show decide (c.val ≥ 'A'.val ∧ c.val ≤ 'Z'.val) = true ↔ _
  rw [decide_eq_true_eq, ge_iff_le, UInt32.le_iff_toNat_le, UInt32.le_iff_toNat_le]
  rfl

theorem isLower_iff {c : Char} : c.isLower = true ↔ 97 ≤ c.toNat ∧ c.toNat ≤ 122 := by
  show (decide (c.val ≥ 'a'.val) && decide (c.val ≤ 'z'.val)) = true ↔ _
  rw [Bool.and_eq_true, decide_eq_true_eq, decide_eq_true_eq, ge_iff_le,
    UInt32.le_iff_toNat_le, UInt32.le_iff_toNat_le]
  rfl

theorem isDigit_iff {c : Char} : c.isDigit = true ↔ 48 ≤ c.toNat ∧ c.toNat ≤ 57 := by
  show (decide (c.val ≥ '0'.val) && decide (c.val ≤ '9'.val)) = true ↔ _
  rw [Bool.and_eq_true, decide_eq_true_eq, decide_eq_true_eq, ge_iff_le,
    UInt32.le_iff_toNat_le, UInt32.le_iff_toNat_le]
  rfl

theorem isAlpha_iff {c : Char} :
    c.isAlpha = true ↔ (65 ≤ c.toNat ∧ c.toNat ≤ 90) ∨ (97 ≤ c.toNat ∧ c.toNat ≤ 122) := by
  show (c.isUpper || c.isLower) = true ↔ _
  rw [Bool.or_eq_true, isUpper_iff, isLower_iff]

theorem startsName_of_isUpper {c : Char} (h : c.isUpper = true) : startsName c = true := by
  have halpha : c.isAlpha = true := isAlpha_iff.2 (.inl (isUpper_iff.1 h))
  rw [startsName, halpha, Bool.or_true]

theorem toNat_lt_of_isAlphanum {c : Char} (h : c.isAlphanum = true) : c.toNat < 0x80 := by
  rw [Char.isAlphanum, Bool.or_eq_true, isAlpha_iff, isDigit_iff] at h
  omega

/-- A character that begins a name is no digit. -/
theorem not_isDigit_of_startsName {c : Char} (h : startsName c = true) : c.isDigit = false := by
  simp only [startsName, Bool.or_eq_true, decide_eq_true_eq, isAlpha_iff] at h
  rw [← Bool.not_eq_true, isDigit_iff]
  rcases h with rfl | h
  · decide
  · omega

theorem not_isAlpha_of_isDigit {c : Char} (h : c.isDigit = true) : c.isAlpha = false := by
  rw [isDigit_iff] at h
  rw [← Bool.not_eq_true, isAlpha_iff]
  omega

/-- A name goes on with characters of words. -/
theorem isWord_of_continuesName {c : Char} (h : continuesName c = true) : isWord c = true := by
  simp only [continuesName, Bool.or_eq_true, decide_eq_true_eq] at h
  rcases h with rfl | h
  · decide
  · exact isWord_of_isAlphanum c h (toNat_lt_of_isAlphanum h)

/-- Within ASCII the characters of words are those of names. -/
theorem continuesName_or_lt_of_isWord {c : Char} (h : isWord c = true) :
    continuesName c = true ∨ 127 < c.toNat := by
  unfold isWord at h
  split at h
  · exact .inl h
  · exact .inr (by omega)

/-- What becomes a letter in lower case is a letter. -/
theorem isAlpha_of_toLower {c : Char} (h : c.toLower.isAlpha = true) : c.isAlpha = true := by
  unfold Char.toLower at h
  split at h
  · next hupper =>
    have hletter : c.isUpper = true := decide_eq_true hupper
    exact isAlpha_iff.2 (.inl (isUpper_iff.1 hletter))
  · exact h

/-- No character of a name is white space. -/
theorem not_isSpace_of_continuesName {c : Char} (h : continuesName c = true) :
    isSpace c = false := by
  simp only [continuesName, Char.isAlphanum, Bool.or_eq_true, decide_eq_true_eq, isAlpha_iff,
    isDigit_iff] at h
  rw [← Bool.not_eq_true]
  intro hspace
  simp only [isSpace, Bool.or_eq_true, Bool.and_eq_true, decide_eq_true_eq] at hspace
  rcases h with rfl | h
  · revert hspace
    decide
  · omega

/-! ## Boundaries -/

/-- A text does not begin with a character of a class. -/
def Stops (p : Char → Bool) (cs : List Char) : Prop :=
  ∀ c ∈ cs.head?, p c = false

theorem stops_nil {p : Char → Bool} : Stops p [] := by
  rintro c ⟨⟩

theorem stops_dropWhile (p : Char → Bool) (cs : List Char) : Stops p (cs.dropWhile p) := by
  intro c hc
  have hnot := List.head?_dropWhile_not p cs
  rw [hc] at hnot
  exact hnot

theorem stops_cons {p : Char → Bool} {c : Char} {cs : List Char} (h : p c = false) :
    Stops p (c :: cs) := by
  rintro d ⟨⟩
  exact h

theorem Stops.append {p : Char → Bool} {cs ds : List Char} (hcs : Stops p cs) (hds : Stops p ds) :
    Stops p (cs ++ ds) := by
  cases cs with
  | nil => exact hds
  | cons c cs => exact stops_cons (hcs c rfl)

/-- A beginning of a text begins with no other character. -/
theorem Stops.of_prefix {p : Char → Bool} {cs ds : List Char} (h : Stops p ds) (hcs : cs <+: ds) :
    Stops p cs := by
  cases cs with
  | nil => exact stops_nil
  | cons c cs =>
    obtain ⟨more, rfl⟩ := hcs
    exact stops_cons (h c rfl)

theorem takeWhile_append {p : Char → Bool} {word rest : List Char} (h : ∀ c ∈ word, p c = true)
    (hrest : Stops p rest) :
    (word ++ rest).takeWhile p = word ∧ (word ++ rest).dropWhile p = rest := by
  rw [List.takeWhile_append_of_pos h, List.dropWhile_append_of_pos h]
  cases rest with
  | nil => exact ⟨List.append_nil word, rfl⟩
  | cons c rest =>
    have hc : p c = false := hrest c rfl
    simp [hc]

/-- Where a text stops nothing is taken and nothing dropped. -/
theorem Stops.takeWhile_eq_nil {p : Char → Bool} {cs : List Char} (h : Stops p cs) :
    cs.takeWhile p = [] ∧ cs.dropWhile p = cs := by
  have hnone : ∀ c ∈ ([] : List Char), p c = true := by simp
  exact takeWhile_append hnone h

namespace Pattern

section Combinators

variable {a b : Pattern} {cs x y left left' : List Char}

theorem seq_eq_some (h : a cs = some (x, left)) (h' : b left = some (y, left')) :
    a.seq b cs = some (x ++ y, left') := by
  rw [seq, h]
  simp only [h']

theorem seq_eq_none_of_left (h : a cs = none) : a.seq b cs = none := by
  rw [seq, h]

theorem seq_eq_none_of_right (h : a cs = some (x, left)) (h' : b left = none) :
    a.seq b cs = none := by
  rw [seq, h]
  simp only [h']

/-- What two patterns in a row take is what each of them takes. -/
theorem exists_of_seq_eq_some (h : a.seq b cs = some (x, left)) :
    ∃ y z between, a cs = some (y, between) ∧ b between = some (z, left) ∧ x = y ++ z := by
  unfold seq at h
  split at h
  · cases h
  next y between hfirst =>
  split at h
  · cases h
  next z left' hsecond =>
  obtain ⟨rfl, rfl⟩ := Prod.mk.inj (Option.some.inj h)
  exact ⟨y, z, between, hfirst, hsecond, rfl⟩

/-- What one of two patterns takes is what the first takes, or else what the second takes. -/
theorem or_of_orElse_eq_some (h : a.orElse b cs = some (x, left)) :
    a cs = some (x, left) ∨ a cs = none ∧ b cs = some (x, left) := by
  unfold orElse at h
  split at h
  · next hfirst => exact .inl (hfirst.trans h)
  · next hfirst => exact .inr ⟨hfirst, h⟩

/-- A pattern that may take nothing takes something, or nothing. -/
theorem or_of_optional_eq_some (h : a.optional cs = some (x, left)) :
    a cs = some (x, left) ∨ x = [] ∧ left = cs := by
  rcases or_of_orElse_eq_some h with hsome | ⟨-, hnone⟩
  · exact .inl hsome
  · obtain ⟨rfl, rfl⟩ := Prod.mk.inj (Option.some.inj hnone)
    exact .inr ⟨rfl, rfl⟩

/-- One character is taken, which is of the class. -/
theorem exists_of_one_eq_some {p : Char → Bool} (h : one p cs = some (x, left)) :
    ∃ c, p c = true ∧ x = [c] ∧ cs = c :: left := by
  unfold one at h
  split at h
  · next c cs =>
    obtain ⟨hc, h⟩ := Option.ite_none_right_eq_some.1 h
    obtain ⟨rfl, rfl⟩ := Prod.mk.inj (Option.some.inj h)
    exact ⟨c, hc, rfl, rfl⟩
  · cases h

/-- All characters of the class are taken, of which there are some. -/
theorem eq_of_many1_eq_some {p : Char → Bool} (h : many1 p cs = some (x, left)) :
    x = cs.takeWhile p ∧ left = cs.dropWhile p ∧ x ≠ [] := by
  obtain ⟨hne, h⟩ := Option.ite_none_left_eq_some.1 h
  obtain ⟨rfl, rfl⟩ := Prod.mk.inj (Option.some.inj h)
  exact ⟨rfl, rfl, by simpa using hne⟩

theorem one_eq_none {p : Char → Bool} (h : Stops p cs) : one p cs = none := by
  cases cs with
  | nil => rfl
  | cons c cs =>
    have hc : p c = false := h c rfl
    simp [one, hc]

end Combinators

theorem many_append {p : Char → Bool} {word rest : List Char} (h : ∀ c ∈ word, p c = true)
    (hrest : Stops p rest) : many p (word ++ rest) = some (word, rest) := by
  obtain ⟨htake, hdrop⟩ := takeWhile_append h hrest
  rw [many, htake, hdrop]

theorem many1_append {p : Char → Bool} {word rest : List Char} (h : ∀ c ∈ word, p c = true)
    (hword : word ≠ []) (hrest : Stops p rest) : many1 p (word ++ rest) = some (word, rest) := by
  obtain ⟨htake, hdrop⟩ := takeWhile_append h hrest
  rw [many1, htake, hdrop, if_neg (by simpa using hword)]

theorem many1_of_stops {p : Char → Bool} {rest : List Char} (hrest : Stops p rest) :
    many1 p rest = none := by
  rw [many1, hrest.takeWhile_eq_nil.1]
  rfl

/-- A keyword is not found across the end of a word. -/
theorem length_le_of_equalsCaseless {keyword word rest : List Char}
    (hkeyword : ∀ c ∈ keyword, c.toLower.isAlpha = true) (hrest : Stops continuesName rest)
    (h : equalsCaseless ((word ++ rest).take keyword.length) keyword = true) :
    keyword.length ≤ word.length := by
  induction keyword generalizing word with
  | nil => exact Nat.zero_le _
  | cons k keyword ih =>
    obtain ⟨hk, hkeyword⟩ := List.forall_mem_cons.1 hkeyword
    cases word with
    | nil =>
      cases rest with
      | nil => simp [equalsCaseless] at h
      | cons c rest =>
        have hlower : c.toLower = k.toLower := by
          simp only [equalsCaseless, List.nil_append, List.length_cons, List.take_succ_cons,
            List.map_cons, decide_eq_true_eq, List.cons.injEq] at h
          exact h.1
        have halpha : c.isAlpha = true := isAlpha_of_toLower (hlower ▸ hk)
        have hc : continuesName c = false := hrest c rfl
        simp [continuesName, Char.isAlphanum, halpha] at hc
    | cons w word =>
      simp only [equalsCaseless, List.cons_append, List.length_cons, List.take_succ_cons,
        List.map_cons, decide_eq_true_eq, List.cons.injEq] at h
      have hle := @ih word hkeyword (by simpa [equalsCaseless] using h.2)
      simpa using hle

/-- A keyword is only found at the beginning of a word. -/
theorem wordCaseless_append {keyword word rest x left : List Char}
    (hkeyword : ∀ c ∈ keyword, c.toLower.isAlpha = true) (hrest : Stops continuesName rest)
    (h : wordCaseless keyword (word ++ rest) = some (x, left)) :
    ∃ more, word = x ++ more ∧ left = more ++ rest ∧ equalsCaseless x keyword = true := by
  unfold wordCaseless at h
  obtain ⟨hsame, hcut⟩ := Option.ite_none_right_eq_some.1 h
  obtain ⟨rfl, rfl⟩ := Prod.mk.inj (Option.some.inj hcut)
  have hle := length_le_of_equalsCaseless hkeyword hrest hsame
  refine ⟨word.drop keyword.length, ?_, ?_, hsame⟩
  · rw [List.take_append_of_le_length hle, List.take_append_drop]
  · rw [List.drop_append_of_le_length hle]

end Pattern

/-! ## Names -/

/-- An identifier: a letter or an underscore, and letters, digits and underscores. -/
def isIdentifier : List Char → Bool
  | [] => false
  | c :: cs => startsName c && cs.all continuesName

/-- An identifier that begins with a capital. -/
def isClassIdentifier : List Char → Bool
  | [] => false
  | c :: cs => c.isUpper && cs.all continuesName

theorem isIdentifier_of_isClassIdentifier {cs : List Char} (h : isClassIdentifier cs = true) :
    isIdentifier cs = true := by
  cases cs with
  | nil => cases h
  | cons c cs =>
    simp only [isClassIdentifier, isIdentifier, Bool.and_eq_true] at h ⊢
    exact ⟨startsName_of_isUpper h.1, h.2⟩

theorem continuesName_of_isIdentifier {cs : List Char} (h : isIdentifier cs = true) :
    ∀ c ∈ cs, continuesName c = true := by
  cases cs with
  | nil => cases h
  | cons first cs =>
    simp only [isIdentifier, Bool.and_eq_true, List.all_eq_true] at h
    exact List.forall_mem_cons.2 ⟨continuesName_of_startsName h.1, h.2⟩

theorem exists_cons_of_isIdentifier {cs : List Char} (h : isIdentifier cs = true) :
    ∃ first more, cs = first :: more ∧ startsName first = true := by
  cases cs with
  | nil => cases h
  | cons first more =>
    simp only [isIdentifier, Bool.and_eq_true] at h
    exact ⟨first, more, rfl, h.1⟩

namespace Lexeme

variable {word rest : List Char}

theorem name_append (hword : isIdentifier word = true) (hrest : Stops continuesName rest) :
    name (word ++ rest) = some (word, rest) := by
  cases word with
  | nil => cases hword
  | cons first more =>
    simp only [isIdentifier, Bool.and_eq_true, List.all_eq_true] at hword
    rw [List.cons_append, name, seq, one, if_pos hword.1]
    simp only [many_append hword.2 hrest]
    rfl

theorem className_append (hword : isClassIdentifier word = true)
    (hrest : Stops continuesName rest) : className (word ++ rest) = some (word, rest) := by
  cases word with
  | nil => cases hword
  | cons first more =>
    simp only [isClassIdentifier, Bool.and_eq_true, List.all_eq_true] at hword
    rw [List.cons_append, className, seq, one, if_pos hword.1]
    simp only [many_append hword.2 hrest]
    rfl

theorem isAlpha_of_mem_importWord : ∀ c ∈ importWord, c.toLower.isAlpha = true :=
  List.all_eq_true.1 rfl

theorem isAlpha_of_mem_end : ∀ c ∈ ['e', 'n', 'd'], c.toLower.isAlpha = true :=
  List.all_eq_true.1 rfl

/-- Another name than `end` is not taken for it. -/
theorem endWord_append (hword : isIdentifier word = true)
    (hend : equalsCaseless word ['e', 'n', 'd'] = false) (hrest : Stops continuesName rest) :
    endWord (word ++ rest) = none := by
  unfold endWord seq
  split
  · rfl
  next x left hkeyword =>
  obtain ⟨more, rfl, rfl, hsame⟩ := wordCaseless_append isAlpha_of_mem_end hrest hkeyword
  cases more with
  | nil =>
    rw [List.append_nil, hsame] at hend
    cases hend
  | cons c more =>
    have hc : continuesName c = true :=
      continuesName_of_isIdentifier hword c (List.mem_append_right x List.mem_cons_self)
    rw [List.cons_append, notBefore, if_pos (isWord_of_continuesName hc)]

theorem gap_append (n : Nat) (hrest : Stops isBlank rest) :
    gap (List.replicate n ' ' ++ rest) = some (List.replicate n ' ', rest) := by
  refine many_append (fun c hc => ?_) hrest
  rw [List.eq_of_mem_replicate hc]
  rfl

/-- A line that begins with a name is no directive, unless the name is `import` and a
target stands behind it. -/
theorem directive_append (indent : Nat) (hword : isIdentifier word = true)
    (hrest : Stops continuesName rest)
    (htarget : equalsCaseless word importWord = true → Stops isTarget (rest.dropWhile isBlank)) :
    directive (List.replicate indent ' ' ++ (word ++ rest)) = none := by
  have hblank : Stops isBlank (word ++ rest) := by
    obtain ⟨first, more, rfl, hfirst⟩ := exists_cons_of_isIdentifier hword
    exact stops_cons (not_isBlank_of_continuesName (continuesName_of_startsName hfirst))
  refine seq_eq_none_of_right (gap_append indent hblank) ?_
  cases hkeyword : wordCaseless importWord (word ++ rest) with
  | none => exact seq_eq_none_of_left hkeyword
  | some cut =>
    obtain ⟨x, left⟩ := cut
    refine seq_eq_none_of_right hkeyword ?_
    obtain ⟨more, rfl, rfl, hsame⟩ := wordCaseless_append isAlpha_of_mem_importWord hrest hkeyword
    cases more with
    | nil =>
      rw [List.append_nil] at htarget
      rw [List.nil_append]
      -- Behind the keyword blanks may stand, but no target.
      by_cases hblanks : (rest.takeWhile isBlank).isEmpty = true
      · exact seq_eq_none_of_left (if_pos hblanks)
      · refine seq_eq_none_of_right (if_neg hblanks) ?_
        exact seq_eq_none_of_left (many1_of_stops (htarget hsame))
    | cons c more =>
      have hc : continuesName c = true :=
        continuesName_of_isIdentifier hword c (List.mem_append_right x List.mem_cons_self)
      exact seq_eq_none_of_left
        (many1_of_stops (stops_cons (not_isBlank_of_continuesName hc)))

theorem moreDigits_cons_of_ne {c : Char} (hc : c ≠ '_') (cs : List Char) :
    moreDigits (c :: cs) =
      if c.isDigit then (c :: (moreDigits cs).1, (moreDigits cs).2) else ([], c :: cs) := by
  conv => lhs; unfold moreDigits
  split
  · next he => exact absurd (List.cons.inj he).1 hc
  · next he =>
    obtain ⟨rfl, rfl⟩ := List.cons.inj he
    rfl
  · next he => cases he

end Lexeme

end BlockLexer
